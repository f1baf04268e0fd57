import TrackedRecord.Proofs.Record.Partial
import TrackedRecord.Proofs.Wire.Mismatch
import TrackedRecord.Proofs.Wire.Payload.RoundTrip
import TrackedRecord.Proofs.Wire.Slice.Safe

/-!
# Records of another compilation

A codec asks a record for the name of its type and for no more, and two compilations of one name may differ in
their fields. How many fields the codec and the records have then decides which calls can fault: each field or
slot that a call takes by its number must be there.
-/

namespace TrackedRecord.Wire

/-- The call has taken a field or a slot that is not there. -/
def Faulted {α : Type} (result : Except Error α) : Prop := ∃ e, result = .error e ∧ e.kind = .fault

/-- How a checked run ends where a call reports an error. -/
def Halt.of (e : Error) : Halt := if e.kind = .fault then .trap else .error e

theorem Halt.of_fault {e : Error} (fault : e.kind = .fault) : of e = .trap := if_pos fault

theorem Error.Placed.not_fault {size : Nat} {e : Error} (placed : e.Placed size) : e.kind ≠ .fault := by
  rcases placed.kind with kind | kind | kind
  all_goals simp [kind]

theorem Halt.of_placed {size : Nat} {e : Error} (placed : e.Placed size) : of e = .error e := if_neg placed.not_fault

namespace Faulted

variable {α β γ : Type} {x : Except Error α} {y : Except Error β}

theorem not_ok (a : α) : ¬Faulted (.ok a) := fun ⟨_, same, _⟩ => nomatch same

theorem error_iff {e : Error} : Faulted (.error e : Except Error α) ↔ e.kind = .fault :=
  ⟨fun ⟨_, same, fault⟩ => by cases same; exact fault, fun fault => ⟨e, rfl, fault⟩⟩

theorem part_iff {g : α → β} : Faulted (do let a ← x; return g a) ↔ Faulted x := by
  cases x with
  | ok a => exact ⟨(not_ok _ · |>.elim), (not_ok _ · |>.elim)⟩
  | error e => exact error_iff.trans error_iff.symm

/-- A first part that does not fault must be there for the second one to be asked. -/
theorem parts_iff {g : α → β → γ} (first : Result.Raises (fun e => e.kind ≠ .fault) x) :
    Faulted (do let a ← x; let b ← y; return g a b) ↔ (∃ a, x = .ok a) ∧ Faulted y := by
  cases x with
  | ok a => exact part_iff.trans (iff_and_self.mpr fun _ => ⟨a, rfl⟩)
  | error e =>
    refine ⟨fun faulted => absurd (error_iff.mp faulted) (first e rfl), ?_⟩
    rintro ⟨⟨_, ⟨⟩⟩, _⟩

end Faulted

/-! ### Writing -/

namespace Payload

variable {maxDepth : Nat} {layout : Layout}

theorem encodeFields_known {slots : List Value} {i : Nat} {field : Field} {value : Value}
    (found : layout.fields[i]? = some field) (present : slots[i]? = some value) (rest : List Nat) :
    encodeFields maxDepth layout slots (i :: rest) = do
      let first ← encodeField maxDepth layout.name field value
      let others ← encodeFields maxDepth layout slots rest
      return first ++ others := by
  rw [encodeFields, found, present]

/-- Ascending indices without a field in the layout come after all those with one. -/
theorem encodeFields_faulted_iff {slots : List Value} {indices : List Nat} (ascending : indices.Pairwise (· < ·))
    (present : ∀ i ∈ indices, i < slots.length) :
    Faulted (encodeFields maxDepth layout slots indices) ↔
      (∃ i ∈ indices, layout.fieldCount ≤ i) ∧
        ∃ bytes, encodeFields maxDepth layout slots (indices.filter (· < layout.fieldCount)) = .ok bytes := by
  induction indices with
  | nil => simp [encodeFields, Faulted.not_ok]
  | cons i rest ih =>
    obtain ⟨above, ascendingRest⟩ := List.pairwise_cons.mp ascending
    rw [List.forall_mem_cons] at present
    by_cases known : i < layout.fieldCount
    · obtain ⟨field, found⟩ : ∃ field, layout.fields[i]? = some field := ⟨_, List.getElem?_eq_getElem known⟩
      have slot := List.getElem?_eq_getElem present.1
      have ours : Result.Raises (fun e => e.kind ≠ .fault) (encodeField maxDepth layout.name field slots[i]) :=
        (encodeField_mismatches maxDepth layout.name field _).mono fun e mismatch => by simp [mismatch.kind]
      have kept : (i :: rest).filter (· < layout.fieldCount) = i :: rest.filter (· < layout.fieldCount) :=
        List.filter_cons_of_pos (decide_eq_true known)
      rw [kept, encodeFields_known found slot, encodeFields_known found slot, Faulted.parts_iff ours,
        ih ascendingRest present.2]
      simp only [Result.parts_ok]
      constructor
      · rintro ⟨⟨first, head⟩, ⟨j, member, outside⟩, others, tail⟩
        exact ⟨⟨j, List.mem_cons_of_mem i member, outside⟩, _, first, others, head, tail, rfl⟩
      · rintro ⟨⟨j, member, outside⟩, _, first, others, head, tail, _⟩
        have later : j ∈ rest := (List.mem_cons.mp member).resolve_left (by omega)
        exact ⟨⟨first, head⟩, ⟨j, later, outside⟩, others, tail⟩
    · have unknown := Nat.not_lt.mp known
      have none : (i :: rest).filter (· < layout.fieldCount) = [] := by
        refine List.filter_eq_nil_iff.mpr fun j member less => known ?_
        rcases List.mem_cons.mp member with rfl | later
        · exact of_decide_eq_true less
        · exact Nat.lt_trans (above j later) (of_decide_eq_true less)
      have failed : encodeFields maxDepth layout slots (i :: rest) = .error (.outOfRange i layout.fieldCount) := by
        rw [encodeFields, List.getElem?_eq_none unknown]
      rw [none, failed]
      exact iff_of_true (Faulted.error_iff.mpr rfl) ⟨⟨i, List.mem_cons_self, unknown⟩, [], rfl⟩

end Payload

namespace Codec

open Payload

variable {codec : Codec} {r : Record Value}

/-- A record faults in the writer if it shows a field that the codec does not know, and all that the codec knows
of it can be written. -/
theorem encode_faulted_iff (fitted : r.Fitted) (type : r.typeName = codec.typeName) :
    Faulted (codec.encode r) ↔ (∃ i, codec.layout.fieldCount ≤ i ∧ r.isReadable i = true) ∧
      ∃ bytes, codec.encode (r.restrictTo codec.layout.selectAll) = .ok bytes := by
  have present : ∀ i ∈ r.readable.ones, i < r.slots.length := fun i member => by
    rw [fitted.slots, ← fitted.readableLen]
    exact FieldBits.lt_of_get (FieldBits.mem_ones.mp member)
  have selected : (r.restrictTo codec.layout.selectAll).readable.ones =
      r.readable.ones.filter (· < codec.layout.fieldCount) := by
    rw [fitted.ones_restrictTo]
    exact List.filter_congr fun i _ => codec.layout.get_selectAll i
  rw [encode_of_typeName type, encode_of_typeName (r := r.restrictTo _) type, Payload.encode, Payload.encode,
    Faulted.part_iff, encodeFields_faulted_iff r.readable.ones_ascending present, selected]
  refine and_congr ?_ ?_
  · exact exists_congr fun i => by rw [FieldBits.mem_ones, and_comm]; rfl
  · simp only [Result.part_ok]
    exact ⟨fun ⟨fields, written⟩ => ⟨_, fields, written, rfl⟩, fun ⟨_, fields, written, _⟩ => ⟨fields, written⟩⟩

/-! ### Reading -/

theorem decodeSlice_of_typeName (type : r.typeName = codec.typeName) (bytes : List UInt8) :
    codec.decodeSlice bytes (some r) = codec.decodeSliceInto r bytes := by
  simp only [decodeSlice, checkType, if_pos type]
  rfl

variable {bytes : List UInt8}

/-- The reader traps where decoding faults, and that only if the record has fewer slots than the codec has fields. -/
theorem decodeSliceInto_ends (sound : codec.Sound) (fitted : (Value.record r).Every Record.Fitted)
    (small : bytes.length < wordBound) :
    codec.decodeSliceInto r bytes = (codec.decodeInto r bytes).mapError Halt.of ∧
      (Faulted (codec.decodeInto r bytes) → r.layout.fieldCount < codec.layout.fieldCount) := by
  obtain ⟨own, slots⟩ := Value.every_record.mp fitted
  have cleared : ∀ slot ∈ r.clearState.slots, slot.Every Record.Fitted :=
    List.forall_mem_map.mpr fun slot member => (slots slot member).clearEntryStates
  have count : r.clearState.slots.length = r.layout.fieldCount := by
    rw [Record.clearState_slots, List.length_map, own.slots]
  have inside : Slice.Inside bytes.length { data := bytes } := ⟨small, rfl, Nat.zero_le _⟩
  have refines : RefinesUnless _ bytes.length (Checked.payload codec.registry codec.settings codec.layout r) _ :=
    Checked.payload_refinesUnless sound.registry codec.layout cleared
  rw [count] at refines
  unfold decodeSliceInto decodeInto
  rw [show Cursor.start bytes = Slice.cursor { data := bytes } from rfl]
  rcases refines _ inside with agree | ⟨fewer, s, e, c, ran, decoded, fault⟩
  · generalize Checked.payload _ _ _ _ _ = ran, Payload.decode _ _ _ _ _ = decoded at agree
    cases agree with
    | ok onward => exact ⟨rfl, fun faulted => (Faulted.not_ok _ faulted).elim⟩
    | error onward placed =>
      exact ⟨congrArg Except.error (Halt.of_placed placed).symm,
        fun faulted => absurd (Faulted.error_iff.mp faulted) placed.not_fault⟩
  · rw [ran, decoded]
    exact ⟨congrArg Except.error (Halt.of_fault fault).symm, fun _ => fewer⟩

end Codec

/-! ### Payloads by their bits -/

/-- Bits as a payload of the layout has them. -/
structure Payload.Bits (layout : Layout) (bits : FieldBits) : Prop where
  formed : bits.WellFormed
  len : bits.len = layout.fieldCount

namespace Payload

variable (registry : Registry) {settings : Settings} {layout : Layout} {dirty readable : FieldBits}

/-- Two bit sets and what stands behind them. -/
theorem bits_length_lt (dirtyBits : Bits layout dirty) (readableBits : Bits layout readable)
    (sized : layout.fieldCount < wordBound) (more : List UInt8) (short : more.length ≤ 1) :
    (encodeBits dirty ++ (encodeBits readable ++ more)).length < wordBound := by
  have first := dirtyBits.len ▸ encodeBits_length_le dirty
  have second := readableBits.len ▸ encodeBits_length_le readable
  simp only [List.length_append]
  unfold packedLength at first second
  unfold wordBound at sized ⊢
  omega

theorem fill_bits (settings : Settings) (dirtyBits : Bits layout dirty) (readableBits : Bits layout readable)
    (sized : layout.fieldCount < wordBound) (target : Record Value) (more : List UInt8) :
    ∃ pos, fill registry settings layout target
        (Cursor.start (encodeBits dirty ++ (encodeBits readable ++ more))) =
      (do let slots ← decodeFields registry settings layout readable.ones target.slots
          return ⟨target.layout, slots, dirty, readable⟩ : Decoder (Record Value)) ⟨more, pos⟩ := by
  have first := decodeBitmap_reads dirtyBits.formed dirtyBits.len sized "dirty"
  have second := decodeBitmap_reads readableBits.formed readableBits.len sized "readable"
  exact ⟨_, by rw [fill, Cursor.start, Decoder.bind_of_ok (first _ _), Decoder.bind_of_ok (second _ _)]⟩

/-- A field without a slot, if it is the first one that is readable. -/
theorem decodeFields_fault (small : settings.maxBytes < wordBound) {i : Nat} {field : Field} {slots : List Value}
    (found : layout.fields[i]? = some field) (absent : slots[i]? = none) (rest : List Nat) (pos : Nat) :
    ∃ e c, decodeFields registry settings layout (i :: rest) slots ⟨encodeTable field .null, pos⟩ = .error e c ∧
      e.kind = .fault := by
  have allowed : field.kind = .map → settings.AllowsTable Value.null.mapOrEmpty.states :=
    fun _ => ⟨Nat.zero_le _, List.forall_mem_nil _⟩
  have table := fieldStates_reads small (show Value.WellFormed registry .null from trivial) allowed [] pos
  rw [List.append_nil] at table
  have failed : decodeField registry settings field slots i ⟨encodeTable field .null, pos⟩ =
      .error (.outOfRange i slots.length) ⟨[], pos + (encodeTable field .null).length⟩ := by
    rw [decodeField_none absent, Decoder.bind_of_ok table]
    rfl
  rw [decodeFields, found]
  dsimp only
  exact ⟨_, _, Decoder.bind_of_error (Decoder.within_of_error failed), rfl⟩

end Payload

namespace Codec

variable {codec : Codec} {r : Record Value}

/-- The first field without a slot in the record, as the only one in the payload. -/
theorem decodeInto_faults (sound : codec.Sound) (fewer : r.slots.length < codec.layout.fieldCount) :
    ∃ bytes : List UInt8, bytes.length < wordBound ∧ Faulted (codec.decodeInto r bytes) := by
  obtain ⟨field, found⟩ : ∃ field, codec.layout.fields[r.slots.length]? = some field :=
    ⟨_, List.getElem?_eq_getElem fewer⟩
  have clear := FieldBits.new_wellFormed codec.layout.fieldCount
  have one : Payload.Bits codec.layout (FieldBits.set (.new codec.layout.fieldCount) r.slots.length) :=
    ⟨clear.set _, FieldBits.set_len _ _⟩
  refine ⟨_, Payload.bits_length_lt ⟨clear, rfl⟩ one sound.sized (Payload.encodeTable field .null) ?_, ?_⟩
  · unfold Payload.encodeTable
    split <;> decide
  · have absent : r.clearState.slots[r.slots.length]? = none := by simp [Record.clearState_slots]
    obtain ⟨pos, filled⟩ := Payload.fill_bits codec.registry codec.settings ⟨clear, rfl⟩ one sound.sized
      r.clearState (Payload.encodeTable field .null)
    obtain ⟨e, c, failed, fault⟩ := Payload.decodeFields_fault codec.registry
      (Settings.maxBytes_lt sound.settings) found absent [] pos
    rw [FieldBits.ones_set_new fewer, Decoder.bind_of_error failed] at filled
    rw [decodeInto_of_error (Decoder.whole_of_error filled)]
    exact Faulted.error_iff.mpr fault

/-- A payload without any field is read into any record. -/
theorem decodeInto_bare (sound : codec.Sound) (r : Record Value) :
    ∃ bytes : List UInt8, bytes.length < wordBound ∧
      codec.decodeInto r bytes = .ok { r.clearState with
        dirty := .new codec.layout.fieldCount, readable := .new codec.layout.fieldCount } := by
  have none : Payload.Bits codec.layout (.new codec.layout.fieldCount) := ⟨FieldBits.new_wellFormed _, rfl⟩
  refine ⟨_, Payload.bits_length_lt none none sound.sized [] (Nat.zero_le _), ?_⟩
  obtain ⟨pos, filled⟩ := Payload.fill_bits codec.registry codec.settings none none sound.sized r.clearState []
  rw [FieldBits.ones_new, Payload.decodeFields, pure_bind] at filled
  rw [decodeInto, Payload.decode_eq_whole, Decoder.whole_of_ok filled, if_pos rfl]

/-- What is decoded has the layout of the record in place, but bits for the codec's fields. -/
theorem decodeInto_bits {bytes : List UInt8} {r' : Record Value} (decoded : codec.decodeInto r bytes = .ok r') :
    r'.layout = r.layout ∧ Payload.Bits codec.layout r'.dirty ∧ Payload.Bits codec.layout r'.readable := by
  obtain ⟨c, run⟩ := decodeInto_ok decoded
  obtain ⟨dirty, c₁, first, run⟩ := Decoder.bind_ok (Decoder.whole_ok run).1
  obtain ⟨readable, c₂, second, run⟩ := Decoder.bind_ok run
  obtain ⟨slots, c₃, _, run⟩ := Decoder.bind_ok run
  obtain ⟨rfl, rfl⟩ := Decoder.pure_ok run
  obtain ⟨formedDirty, dirtyLen, _⟩ := Payload.decodeBitmap_ok first
  obtain ⟨formedReadable, readableLen, _⟩ := Payload.decodeBitmap_ok second
  exact ⟨rfl, ⟨formedDirty, dirtyLen⟩, ⟨formedReadable, readableLen⟩⟩

/-! ### All calls -/

/-- What the numbers of fields decide for a record that is of the codec's type by its name only. The writer faults
if the record shows a field that the codec does not know and the rest of it can be written; the reader traps
exactly where decoding faults; no payload makes it do so if the record has all of the codec's fields, and no record
is left with bits of another length if it has just as many; slots are taken of another record unless a selected one
is missing there. -/
theorem foreign_faults_iff (made : codec.Made) (fitted : (Value.record r).Every Record.Fitted)
    (type : r.typeName = codec.typeName) :
    (Faulted (codec.encode r) ↔ (∃ i, codec.layout.fieldCount ≤ i ∧ r.isReadable i = true) ∧
        ∃ bytes, codec.encode (r.restrictTo codec.layout.selectAll) = .ok bytes) ∧
      (∀ bytes, bytes.length < wordBound →
        codec.decodeSlice bytes (some r) = (codec.decode bytes (some r)).1.mapError Halt.of) ∧
      ((∀ bytes, bytes.length < wordBound → ¬Faulted (codec.decode bytes (some r)).1) ↔
        codec.layout.fieldCount ≤ r.layout.fieldCount) ∧
      ((∀ bytes r', bytes.length < wordBound → (codec.decode bytes (some r)).1 = .ok r' →
          r'.dirty.len = r'.layout.fieldCount ∧ r'.readable.len = r'.layout.fieldCount) ↔
        codec.layout.fieldCount = r.layout.fieldCount) ∧
      ∀ source : Record Value, source.Fitted → source.typeName = r.typeName → ∀ selection : FieldBits,
        (∃ index count, r.materializeFrom source selection = .error (.outOfRange index count)) ↔
          ∃ i, selection.get i = true ∧ source.layout.fieldCount ≤ i ∧ i < r.layout.fieldCount := by
  have sound := made.sound
  have own : r.Fitted := (Value.every_record.mp fitted).1
  refine ⟨encode_faulted_iff own type, fun bytes small => ?_, ⟨fun never => ?_, fun enough bytes small faulted => ?_⟩,
    ⟨fun always => ?_, fun same bytes r' _ decoded => ?_⟩,
    fun source other same selection => own.materializeFrom_fault_iff other same selection⟩
  · rw [decodeSlice_of_typeName type, decode_of_typeName type]
    exact (decodeSliceInto_ends sound fitted small).1
  · refine Nat.not_lt.mp fun fewer => ?_
    obtain ⟨bytes, small, faulted⟩ := decodeInto_faults sound (own.slots.symm ▸ fewer)
    exact never bytes small (decode_of_typeName type bytes ▸ faulted)
  · rw [decode_of_typeName type] at faulted
    exact absurd ((decodeSliceInto_ends sound fitted small).2 faulted) (Nat.not_lt.mpr enough)
  · obtain ⟨bytes, small, decoded⟩ := decodeInto_bare sound r
    exact (always bytes _ small ((decode_of_typeName type bytes).trans decoded)).1
  · rw [decode_of_typeName type] at decoded
    obtain ⟨layout, dirty, readable⟩ := decodeInto_bits decoded
    rw [layout, ← same]
    exact ⟨dirty.len, readable.len⟩

end Codec

end TrackedRecord.Wire

/-! ### A list compiled again -/

namespace TrackedRecord.Node

def weighedFields : List FieldType := fields ++ [⟨"weight", .primitive .int⟩]

def weighedLayout : Layout := ⟨"Node", "Node", none, Layout.fieldsOf weighedFields⟩

def weighedRegistry : Registry := { records := [{ type, layout := weighedLayout }] }

theorem weighed_compiled :
    Registry.compile ⟨[⟨"Node", none, none, some (FieldSchema.numbered weighedFields)⟩]⟩ [.record type] =
      .ok weighedRegistry := rfl

def weighedCodec : Wire.Codec :=
  { registry := weighedRegistry, compiled := { type, layout := weighedLayout }, settings := {} }

theorem weighedCodec_made : weighedCodec.Made :=
  .new (.compile weighed_compiled (by decide))
    (show Wire.Codec.new weighedRegistry "Node" {} = .ok weighedCodec from rfl)

/-- A new node with its weight set. -/
def weighed : Record Value where
  layout := weighedLayout
  slots := [.null, .null, .null, .int 9]
  dirty := FieldBits.ofBools [false, false, false, true]
  readable := FieldBits.ofBools [false, false, false, true]

theorem weighed_wellFormed : weighed.WellFormed weighedRegistry := by
  refine ⟨⟨rfl, rfl, FieldBits.ofBools_wellFormed _, rfl, FieldBits.ofBools_wellFormed _, rfl⟩, ?_⟩
  simp only [weighed, List.forall_mem_cons]
  exact ⟨trivial, trivial, trivial, trivial, List.forall_mem_nil _⟩

end TrackedRecord.Node

namespace TrackedRecord.Wire.Codec

/-- The codec of nodes without weights faults in writing a node with one, and never in reading into it. -/
theorem foreign_faults_iff_weighed :
    (Value.record Node.weighed).Every Record.Fitted ∧ Node.weighed.typeName = Node.codec.typeName ∧
      Faulted (Node.codec.encode Node.weighed) ∧
      ∀ bytes, bytes.length < wordBound → ¬Faulted (Node.codec.decode bytes (some Node.weighed)).1 := by
  have fitted := (Value.wellFormed_record.mpr Node.weighed_wellFormed).fitted
  have type : Node.weighed.typeName = Node.codec.typeName := rfl
  obtain ⟨encodes, _, decodes, _⟩ := foreign_faults_iff Node.codec_made fitted type
  exact ⟨fitted, type, encodes.mpr ⟨⟨3, by decide, rfl⟩, _, rfl⟩, decodes.mpr (by decide)⟩

/-- Two compilations of one name, whose records pass the check of the type: a record of the second faults in the
writer of the first, its payload faults in a record of the first, which has no slot for it, a record of the second
that the first codec has read has bits of another length than fields, and its last slot cannot be taken of a record
of the first. -/
theorem foreign_unsafe :
    Node.codec.Made ∧ Node.weighedCodec.Made ∧ Node.sample.WellFormed Node.registry ∧
      Node.weighed.WellFormed Node.weighedRegistry ∧ Node.weighed.typeName = Node.codec.typeName ∧
      Node.sample.typeName = Node.weighedCodec.typeName ∧ Faulted (Node.codec.encode Node.weighed) ∧
      (∃ bytes, Node.weighedCodec.encode Node.weighed = .ok bytes ∧
        Faulted (Node.weighedCodec.decode bytes (some Node.sample)).1 ∧
          Node.weighedCodec.decodeSlice bytes (some Node.sample) = .error .trap) ∧
      (∃ r, (Node.codec.decode [3, 0, 3, 0] (some Node.weighed)).1 = .ok r ∧ r.dirty.len = 3 ∧
        r.readable.len = 3 ∧ r.layout.fieldCount = 4) ∧
      Node.weighed.materializeFrom Node.sample Node.weighedLayout.selectAll = .error (.outOfRange 3 3) := by
  refine ⟨Node.codec_made, Node.weighedCodec_made, Node.sample_wellFormed, Node.weighed_wellFormed, rfl, rfl,
    ⟨_, rfl, rfl⟩, ⟨[4, 8, 4, 8, 9, 0, 0, 0], rfl, ⟨_, rfl, rfl⟩, rfl⟩, ⟨_, rfl, rfl, rfl, rfl⟩, rfl⟩

end TrackedRecord.Wire.Codec
