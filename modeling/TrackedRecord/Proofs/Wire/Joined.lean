import TrackedRecord.Proofs.Wire.Delta
import TrackedRecord.Proofs.Wire.Payload.Sections

/-!
# Entry states from payloads

The states of a decoded map are those of its table, whatever its entries are. So a payload may call a
visible key deleted, or one that is not there updated; a payload that was written for maps that calls
made does not.
-/

namespace TrackedRecord

/-- Values that are written plainly are told apart by key as before. -/
theorem Keyed.get?_map {α β : Type} (f : α → β) (key : String) (entries : List (String × α)) :
    get? key (entries.map fun entry => (entry.1, f entry.2)) = (get? key entries).map f := by
  induction entries with
  | nil => rfl
  | cons entry rest ih =>
    rw [List.map_cons, get?_cons, get?_cons, ih]
    split <;> rfl

theorem Value.mapOrEmpty_eq (value : Value) : value.mapOrEmpty = value.map?.getD {} := by
  cases value <;> rfl

/-- What is written is a map just where the value is one, with plain entries. -/
theorem Wire.Payload.kept_map? (field : Field) (value : Value) :
    (kept field value).map? = value.map?.map fun m =>
      ⟨m.entries.map fun entry => (entry.1, entry.2.plain), tableOf field value⟩ := by
  unfold kept
  cases value with
  | map m =>
    rw [Value.plain_map]
    rfl
  | record r => rw [Value.plain_record]; rfl
  | array items => rw [Value.plain_array]; rfl
  | union branch value => rw [Value.plain_union]; rfl
  | _ => rfl

theorem Wire.Payload.kept_entries (field : Field) (value : Value) :
    (kept field value).mapOrEmpty.entries =
      value.mapOrEmpty.entries.map fun entry => (entry.1, entry.2.plain) := by
  rw [Value.mapOrEmpty_eq, Value.mapOrEmpty_eq, kept_map?]
  cases value.map? <;> rfl

/-- A map that calls made comes out of a payload as one that calls can make. -/
theorem Wire.Payload.kept_produced {registry : Registry} {field : Field} (kind : field.kind = .map)
    {value : Value} (formed : value.WellFormed registry) (produced : value.mapOrEmpty.Produced) :
    (kept field value).mapOrEmpty.Produced := by
  have shaped := (Value.mapOrEmpty_wellFormed formed).1
  obtain ⟨agrees, changes⟩ := (StateMap.produced_iff shaped.entries shaped.states).mp produced
  obtain ⟨updated, deleted⟩ := StateMap.agrees_iff.mp agrees
  have states := kept_states kind value
  have get (key : String) : (kept field value).mapOrEmpty.get? key =
      (value.mapOrEmpty.get? key).map Value.plain := by
    rw [StateMap.get?, kept_entries]
    exact Keyed.get?_map Value.plain key _
  refine (StateMap.produced_iff ?_ (states ▸ shaped.states)).mpr ⟨StateMap.agrees_iff.mpr ⟨?_, ?_⟩, ?_⟩
  · rw [kept_entries, Keyed.sorted_iff_keys, Keyed.keys, List.map_map]
    exact Keyed.sorted_iff_keys.mp shaped.entries
  · intro key state
    rw [states] at state
    rw [get, Option.isSome_map]
    exact updated key state
  · intro key state
    rw [states] at state
    rw [get, deleted key state]
    rfl
  · rw [states]
    exact changes

namespace Wire.Codec

variable {codec : Codec}

/-- Whatever is decoded into, the result is the contents of the payload in its place. -/
theorem decode_onto (sound : codec.Sound) {bytes : List UInt8} {reuse : Option (Record Value)}
    (formed : ∀ x, reuse = some x → x.WellFormed codec.registry) {d : Record Value}
    (accepted : (codec.decode bytes reuse).1 = .ok d) :
    ∃ (contents : Payload.Contents) (target : Record Value),
      Payload.contentsOf codec.registry codec.settings codec.layout bytes = .ok contents ∧
      target.slots.length = codec.layout.fieldCount ∧ d = contents.onto target := by
  cases reuse with
  | none =>
    rw [decode_none_eq sound] at accepted
    obtain ⟨contents, run, rfl⟩ := Result.map_ok.mp accepted
    exact ⟨contents, _, run, sound.fresh_slots, rfl⟩
  | some x =>
    have formed := formed x rfl
    by_cases type : x.typeName = codec.typeName
    · rw [decode_some_eq sound formed type] at accepted
      obtain ⟨contents, run, rfl⟩ := Result.map_ok.mp accepted
      have slots := formed.clearState_length
      rw [sound.layout_of_typeName formed type] at slots
      exact ⟨contents, _, run, slots, rfl⟩
    · simp only [decode, checkType, if_neg type] at accepted
      cases accepted

/-- What a payload holds that was written for a record. -/
theorem contents_of_encode (sound : codec.Sound) {r : Record Value} (formed : r.WellFormed codec.registry)
    {bytes : List UInt8} (encoded : codec.encode r = .ok bytes) (within : r.Within codec.settings)
    {contents : Payload.Contents}
    (run : Payload.contentsOf codec.registry codec.settings codec.layout bytes = .ok contents)
    {i : Nat} {value : Value} (member : (i, value) ∈ contents.values) :
    ∃ field, codec.layout.field? i = some field ∧ value = Payload.kept field (r.slot i) := by
  obtain ⟨type, payload⟩ := encode_ok.mp encoded
  have layout := sound.layout_of_typeName formed type
  have sized : codec.layout.fieldCount < wordBound := sound.registry.sized sound.known
  obtain ⟨values, reads, restored⟩ := Payload.read_reads sound.registry (Settings.maxBytes_lt sound.settings)
    sized formed layout within payload
  rw [Payload.contentsOf_of_reads reads] at run
  cases run
  obtain ⟨field, old, found, present, same⟩ := restored _ member
  have slot : r.slot i = old := by rw [Record.slot, List.getD_eq_getElem?_getD, present, Option.getD_some]
  exact ⟨field, found, slot ▸ same⟩

theorem decode_joins (made : codec.Made) {bytes : List UInt8} {reuse : Option (Record Value)}
    (formed : ∀ x, reuse = some x → x.WellFormed codec.registry) {d : Record Value}
    (accepted : (codec.decode bytes reuse).1 = .ok d) :
    ∃ parts, Payload.sectionsOf codec.registry codec.settings codec.layout bytes =
        .ok ⟨d.dirty, d.readable, parts⟩ ∧
      ∀ i field, codec.layout.field? i = some field → field.kind = .map → d.isReadable i = true →
        (∃ part ∈ parts, part.index = i ∧ (d.slot i).mapOrEmpty.states = part.states ∧
          (d.slot i).mapOrEmpty.entries = part.entries ∧
          ((d.slot i).mapOrEmpty.Agrees ↔ part.Agrees) ∧
          ((d.slot i).mapOrEmpty.Produced ↔
            part.Agrees ∧ ∀ key, Keyed.get? key part.states ≠ some .unchanged)) ∧
        ∀ r, r.WellFormed codec.registry → codec.encode r = .ok bytes → r.Within codec.settings →
          (r.slot i).mapOrEmpty.Produced → (d.slot i).mapOrEmpty.Produced := by
  have sound := made.sound
  obtain ⟨contents, target, run, length, rfl⟩ := decode_onto sound formed accepted
  have fits := Payload.contentsOf_fits run
  obtain ⟨parts, read, values, each⟩ := Payload.contentsOf_sections sound.registry run
  refine ⟨parts, read, fun i field known kind readable => ?_⟩
  obtain ⟨value, member⟩ := fits.exists_value readable
  have slot : (contents.onto target).slot i = value := fits.slot_readable length member
  rw [slot]
  constructor
  · rw [values] at member
    obtain ⟨part, present, same⟩ := List.mem_map.mp member
    obtain ⟨rfl, rfl⟩ := Prod.mk.inj same
    have wellRead := each part present
    exact ⟨part, present, rfl, wellRead.shown, part.joined_entries, Payload.Section.agrees_joined wellRead,
      Payload.Section.produced_joined wellRead⟩
  · intro r formedRecord encoded within produced
    obtain ⟨other, same, rfl⟩ := contents_of_encode sound formedRecord encoded within run member
    obtain rfl := Option.some.inj (known.symm.trans same)
    exact Payload.kept_produced kind (Record.slot_wellFormed formedRecord i) produced

/-- The sample, whose map comes of a removal, in place of another node. -/
theorem decode_joins_node :
    ∃ d, (Node.codec.decode Node.bytes (some Node.sample)).1 = .ok d ∧ d.isReadable 2 = true ∧
      (d.slot 2).mapOrEmpty.states = [("a", .deleted)] ∧ (d.slot 2).mapOrEmpty.Produced := by
  have formed : ∀ x, some Node.sample = some x → x.WellFormed Node.codec.registry :=
    fun x same => Option.some.inj same ▸ Node.sample_wellFormed
  have accepted : (Node.codec.decode Node.bytes (some Node.sample)).1 = .ok _ := rfl
  have produced : (Node.sample.slot 2).mapOrEmpty.Produced :=
    StateMap.Produced.remove (.loaded [("b", Value.int 9)]) "a"
  obtain ⟨parts, _, joined⟩ := decode_joins Node.codec_made formed accepted
  obtain ⟨_, written⟩ := joined 2 _ rfl rfl rfl
  exact ⟨_, accepted, rfl, rfl, written Node.sample Node.sample_wellFormed rfl Node.sample_within produced⟩

/-- A table that calls a key deleted and another one updated, and entries with the first alone. -/
def strayBytes : List UInt8 := [3, 0, 3, 4, 2, 1, 0x61, 2, 1, 0x62, 1, 1, 1, 0x61, 1, 0, 0, 0]

theorem decode_joins_stray :
    Node.codec.Made ∧ ∃ d, (Node.codec.decode strayBytes none).1 = .ok d ∧ d.isReadable 2 = true ∧
      d.entryState 2 "a" = .ok (some .deleted) ∧ d.mapGet 2 "a" = .ok (some (.int 1)) ∧
      d.entryState 2 "b" = .ok (some .updated) ∧ d.mapGet 2 "b" = .ok none ∧
      ¬(d.slot 2).mapOrEmpty.Produced := by
  refine ⟨Node.codec_made, _, rfl, rfl, rfl, rfl, rfl, rfl, fun produced => ?_⟩
  obtain ⟨base, tracks⟩ := produced.tracks
  have hidden := tracks.deleted "a" rfl
  cases hidden

end Wire.Codec

end TrackedRecord
