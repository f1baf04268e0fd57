import TrackedRecord.Proofs.Record.Delta
import TrackedRecord.Proofs.Wire.RoundTrip

/-!
# Deltas on the wire

Calls keep a record well formed, so long as its lists and maps stay within the limits, and what a payload
shows of it is enough to repeat the calls on the old record.
-/

namespace TrackedRecord

open Wire (Settings wordBound)

variable {registry : Registry}

/-! ### What calls can make grow -/

/-- A value of a field that is well formed, but for the length of a list or a map that was built by calls. -/
inductive Value.Grown (registry : Registry) (field : Field) : Value → Prop where
  | formed {value : Value} (formed : value.WellFormed registry) : Grown registry field value
  | list {items : List Value} (kind : field.kind = .list) (each : ∀ item ∈ items, item.WellFormed registry) :
    Grown registry field (.array items)
  | map {m : StateMap Value} (kind : field.kind = .map) (entries : Keyed.Sorted m.entries)
    (states : Keyed.Sorted m.states) (each : ∀ entry ∈ m.entries, entry.2.WellFormed registry) :
    Grown registry field (.map m)

namespace Value.Grown

variable {field : Field} {value : Value}

/-- Limits keep what has grown well formed. -/
theorem wellFormed (grown : value.Grown registry field) {settings : Settings}
    (small : settings.maxCollection < wordBound) (within : value.Within settings)
    (table : field.kind = .map → settings.AllowsTable value.mapOrEmpty.states) : value.WellFormed registry := by
  cases grown with
  | formed formed => exact formed
  | list kind each =>
    exact wellFormed_array.mpr ⟨Nat.lt_of_le_of_lt (within_array.mp within).1 small, each⟩
  | map kind entries states each =>
    refine wellFormed_map.mpr ⟨⟨entries, states, ?_, ?_⟩, each⟩
    · exact Nat.lt_of_le_of_lt (within_map.mp within).1 small
    · exact Nat.lt_of_le_of_lt (table kind).count small

theorem items (grown : value.Grown registry field) :
    ∀ item ∈ value.array?.getD [], item.WellFormed registry := by
  cases grown with
  | list kind each => exact each
  | map => exact List.forall_mem_nil _
  | formed formed =>
    cases value with
    | array items => exact (wellFormed_array.mp formed).2
    | _ => exact List.forall_mem_nil _

theorem entries (grown : value.Grown registry field) :
    Keyed.Sorted value.mapOrEmpty.entries ∧ Keyed.Sorted value.mapOrEmpty.states ∧
      ∀ entry ∈ value.mapOrEmpty.entries, entry.2.WellFormed registry := by
  cases grown with
  | map kind entries states each => exact ⟨entries, states, each⟩
  | list => exact ⟨List.Pairwise.nil, List.Pairwise.nil, List.forall_mem_nil _⟩
  | formed formed =>
    obtain ⟨shaped, each⟩ := mapOrEmpty_wellFormed formed
    exact ⟨shaped.entries, shaped.states, each⟩

end Value.Grown

/-- What a program hands to a call is well formed. -/
def Change.Formed (registry : Registry) : Change → Prop
  | .set _ value | .append _ value | .put _ _ value => value.WellFormed registry
  | .remove .. | .clear _ => True

theorem Value.Grown.result {field : Field} {old : Value} (grown : old.Grown registry field) {change : Change}
    (fits : change.Fits field) (formed : change.Formed registry) :
    (change.result old).Grown registry field := by
  obtain ⟨entries, states, each⟩ := grown.entries
  cases change with
  | set index value => exact .formed formed
  | append index item =>
    refine .list fits.1 ?_
    intro other member
    rcases List.mem_append.mp member with before | last
    · exact grown.items other before
    · exact List.mem_singleton.mp last ▸ formed
  | put index key value =>
    refine .map fits.1 (Keyed.put_sorted entries) (Keyed.put_sorted states) ?_
    intro entry member
    rcases Keyed.mem_put member with rfl | before
    · exact formed
    · exact each entry before
  | remove index key =>
    refine .map fits (Keyed.erase_sorted entries) (Keyed.put_sorted states) ?_
    exact fun entry member => each entry (List.mem_filter.mp member).1
  | clear index =>
    exact .map fits List.Pairwise.nil (Keyed.foldl_put_sorted states) (List.forall_mem_nil _)

namespace Record

variable {base r : Record Value} {changes : List Change}

/-- Every slot is well formed for its field, but for its length. -/
def Grown (registry : Registry) (r : Record Value) : Prop :=
  ∀ i field, r.layout.field? i = some field → (r.slot i).Grown registry field

theorem changed_grown (formed : base.WellFormed registry) (given : ∀ change ∈ changes, change.Formed registry)
    (run : base.changed changes = .ok r) : r.Grown registry := by
  have first : base.Grown registry := fun i field _ => .formed (slot_wellFormed formed i)
  refine changed_induction formed.1 run first ?_
  intro change member s s' does grown i field known
  rw [does.layout] at known
  rw [does.slot]
  split
  · subst_vars
    obtain ⟨other, same, fits⟩ := does.fits
    obtain rfl := Option.some.inj (known.symm.trans same)
    exact (grown _ _ known).result fits (given change member)
  · exact grown i field known

/-- Fields that are not shown are not dirty, so they are as they were; the limits hold for the others. -/
theorem changed_wellFormed (formed : base.WellFormed registry)
    (given : ∀ change ∈ changes, change.Formed registry) (run : base.changed changes = .ok r)
    {entryWise : Nat → Bool} (tracks : Tracks entryWise base r)
    {settings : Settings} (small : settings.maxCollection < wordBound) (within : r.Within settings) :
    r.WellFormed registry := by
  have shaped := changed_shaped formed.1 run
  refine ⟨shaped, ?_⟩
  intro value member
  obtain ⟨i, inside, rfl⟩ := mem_slots member
  cases readable : r.isReadable i with
  | true =>
    obtain ⟨field, known⟩ := Layout.exists_field (shaped.slots ▸ inside)
    obtain ⟨withinSlot, table⟩ := within i field known readable
    exact (changed_grown formed given run i field known).wellFormed small withinSlot table
  | false =>
    have clean : r.isDirty i = false :=
      Bool.of_not_eq_true fun dirty => Bool.false_ne_true (readable.symm.trans (tracks.shown i dirty))
    rw [tracks.kept i clean]
    exact slot_wellFormed formed i

end Record

/-! ### Patches from payloads -/

/-- What a payload that was written for `r` is decoded to: the bits of `r`, and every readable field as it is, with
its entry states. -/
structure Record.Echoes (r d : Record Value) : Prop where
  layout : d.layout = r.layout
  sized : d.slots.length = d.layout.fieldCount
  dirty : d.dirty = r.dirty
  readable : d.readable = r.readable
  shown : ∀ i, r.readable.get i = true → ∃ field, r.layout.field? i = some field ∧
    d.slot i = Wire.Payload.kept field (r.slot i)

namespace Wire.Codec

theorem decode_echoes {codec : Codec} (made : codec.Made) {r : Record Value}
    (formed : r.WellFormed codec.registry) {bytes : List UInt8} (encoded : codec.encode r = .ok bytes)
    (within : r.Within codec.settings) : ∃ d, (codec.decode bytes none).1 = .ok d ∧ r.Echoes d := by
  have sound := made.sound
  obtain ⟨type, payload⟩ := encode_ok.mp encoded
  have layout := sound.layout_of_typeName formed type
  have small := Settings.maxBytes_lt sound.settings
  obtain ⟨values, reads, restored⟩ := Payload.read_reads sound.registry small
    (sound.registry.sized sound.known) formed layout within payload
  have accepted := Payload.contentsOf_fits (Payload.contentsOf_of_reads reads)
  have fresh : (codec.compiled.fresh codec.layout).layout = codec.layout := sound.makes.1
  refine ⟨_, decode_of_reads sound reads, fresh.trans layout.symm, ?_, rfl, rfl, ?_⟩
  · have sized := Payload.store_length (codec.compiled.fresh codec.layout).clearState.slots values
    rw [sound.fresh_slots] at sized
    exact sized.trans (congrArg Layout.fieldCount fresh.symm)
  · intro i readable
    obtain ⟨value, member⟩ := accepted.exists_value readable
    obtain ⟨field, old, found, present, rfl⟩ := restored _ member
    have slot : r.slot i = old := by rw [Record.slot, List.getD_eq_getElem?_getD, present, Option.getD_some]
    exact ⟨field, layout ▸ found, by rw [accepted.slot_readable sound.fresh_slots member, slot]⟩

theorem decode_shows {codec : Codec} (made : codec.Made) {r : Record Value}
    (formed : r.WellFormed codec.registry) {bytes : List UInt8} (encoded : codec.encode r = .ok bytes)
    (within : r.Within codec.settings) :
    ∃ d, (codec.decode bytes none).1 = .ok d ∧ d.dirty = r.dirty ∧
      ∀ i, r.readable.get i = true → ∃ field, r.layout.field? i = some field ∧
        d.slot i = Payload.kept field (r.slot i) := by
  obtain ⟨d, decoded, echoes⟩ := decode_echoes made formed encoded within
  exact ⟨d, decoded, echoes.dirty, echoes.shown⟩

end Wire.Codec

theorem Wire.Payload.kept_same (field : Field) (value : Value) : (kept field value).same value = true := by
  rw [kept, Value.withTable_same]
  exact Value.plain_same value

theorem Wire.Payload.kept_states {field : Field} (kind : field.kind = .map) (value : Value) :
    (kept field value).mapOrEmpty.states = value.mapOrEmpty.states := by
  rw [kept, tableOf, if_pos kind]
  cases value <;> rfl

theorem Record.sorted_slot {r : Record Value} (sorted : ∀ slot ∈ r.slots, Keyed.Sorted slot.mapOrEmpty.entries)
    (i : Nat) : Keyed.Sorted (r.slot i).mapOrEmpty.entries := by
  rcases slot_mem_or_null r i with present | absent
  · exact sorted _ present
  · rw [absent]
    exact List.Pairwise.nil

/-- The state of a record tells what calls have done to it since it was clean, and a payload tells as much. -/
theorem Record.changed_delta {base r : Record Value} {changes : List Change} (shaped : base.Shaped registry)
    (sorted : ∀ slot ∈ base.slots, Keyed.Sorted slot.mapOrEmpty.entries) (clean : base.Clean)
    (run : base.changed changes = .ok r) :
    (∀ i, r.isDirty i = false → r.slot i = base.slot i) ∧
      (∀ i, r.isDirty i = true → r.isReadable i = true) ∧
      (∀ i, entryWise changes i = true → ∀ key,
        (Keyed.get? key (r.slot i).mapOrEmpty.states = some .updated →
          ((r.slot i).mapOrEmpty.get? key).isSome) ∧
        (Keyed.get? key (r.slot i).mapOrEmpty.states = some .deleted →
          (r.slot i).mapOrEmpty.get? key = none) ∧
        (Keyed.get? key (r.slot i).mapOrEmpty.states = none →
          (r.slot i).mapOrEmpty.get? key = (base.slot i).mapOrEmpty.get? key)) ∧
      (base.patched (entryWise changes) r).same r = true ∧
      ∀ (codec : Wire.Codec) (bytes : List UInt8), codec.Made → codec.registry = registry →
        codec.settings.maxCollection < wordBound → base.WellFormed registry →
        (∀ change ∈ changes, change.Formed registry) →
        codec.encode r = .ok bytes → r.Within codec.settings →
        ∃ d, (codec.decode bytes none).1 = .ok d ∧ (base.patched (entryWise changes) d).same r = true := by
  have sortedSlot := sorted_slot sorted
  have tracks := changed_tracks shaped sortedSlot clean run
  refine ⟨tracks.kept, tracks.shown, ?_, ?_, ?_⟩
  · intro i chosen key
    have told := tracks.entries i chosen
    exact ⟨told.updated key, told.deleted key, told.untouched key⟩
  · exact tracks.patched_same sortedSlot (fun _ => rfl) (fun _ _ => Value.same_refl _) fun _ _ _ _ _ => rfl
  · rintro codec bytes made rfl small formed given encoded within
    have formedChanged := changed_wellFormed formed given run tracks small within
    obtain ⟨d, decoded, dirty, shows⟩ := Wire.Codec.decode_shows made formedChanged encoded within
    refine ⟨d, decoded, tracks.patched_same sortedSlot ?_ ?_ ?_⟩
    · intro i
      rw [isDirty, isDirty, dirty]
    · intro i touched
      obtain ⟨field, _, slot⟩ := shows i (tracks.shown i touched)
      rw [slot]
      exact Wire.Payload.kept_same field _
    · intro i field known kind touched
      obtain ⟨other, same, slot⟩ := shows i (tracks.shown i touched)
      obtain rfl := Option.some.inj (known.symm.trans same)
      rw [slot]
      exact Wire.Payload.kept_states kind _

namespace Node

/-- Another entry is put, the old one removed and the first field set. -/
def changes : List Change := [.put 2 "c" (.int 1), .remove 2 "b", .set 0 (.int 6)]

/-- The sample without state after the calls. -/
def changed : Record Value :=
  { sample with
    slots := [.int 6, sample.slot 1, .map ⟨[("c", .int 1)], [("b", .deleted), ("c", .updated)]⟩]
    dirty := FieldBits.ofBools [true, false, true]
    readable := FieldBits.ofBools [true, false, true] }

def changedBytes : List UInt8 :=
  [3, 5, 3, 5, 6, 0, 0, 0, 2, 1, 0x62, 2, 1, 0x63, 1, 1, 1, 0x63, 1, 0, 0, 0]

end Node

/-- The payload has the calls on the sample in it. -/
theorem Record.changed_delta_node :
    Node.sample.clearState.changed Node.changes = .ok Node.changed ∧
      Node.changed.slot 1 = Node.sample.clearState.slot 1 ∧
      Node.codec.encode Node.changed = .ok Node.changedBytes ∧
      ∃ d, (Node.codec.decode Node.changedBytes none).1 = .ok d ∧
        (Node.sample.clearState.patched (entryWise Node.changes) d).same Node.changed = true := by
  have run : Node.sample.clearState.changed Node.changes = .ok Node.changed := rfl
  have formed := clearState_wellFormed Node.sample_wellFormed
  have sorted : ∀ slot ∈ Node.sample.clearState.slots, Keyed.Sorted slot.mapOrEmpty.entries :=
    fun slot member => (Value.mapOrEmpty_wellFormed (formed.2 slot member)).1.entries
  have given : ∀ change ∈ Node.changes, change.Formed Node.registry := by
    simp only [Node.changes, List.forall_mem_cons]
    exact ⟨trivial, trivial, trivial, List.forall_mem_nil _⟩
  have within : Node.changed.Within Node.codec.settings := by
    intro index field found readable
    rcases index with _ | _ | _ | index
    · cases found
      exact ⟨trivial, fun map => (nomatch map)⟩
    · cases readable
    · refine ⟨Value.within_map.mpr ⟨by decide, ?_⟩, fun _ => ⟨by decide, by decide⟩⟩
      exact List.forall_mem_singleton.mpr ⟨by decide, trivial⟩
    · cases found
  have encoded : Node.codec.encode Node.changed = .ok Node.changedBytes := rfl
  obtain ⟨kept, _, _, _, wire⟩ := changed_delta formed.1 sorted (clearState_clean _) run
  exact ⟨run, kept 1 rfl, encoded,
    wire Node.codec Node.changedBytes Node.codec_made rfl (by decide) formed given encoded within⟩

end TrackedRecord
