import TrackedRecord.Proofs.Record.Changes
import TrackedRecord.Proofs.Record.Partial
import TrackedRecord.Proofs.Wire.Codec
import TrackedRecord.Proofs.Wire.Payload.Writer
import TrackedRecord.Proofs.Wire.Plain.Same

/-!
# What a payload does not show

A payload shows the bits of a record and, of its readable fields, their structure and the entry states of
maps. Two records that agree on these have one payload, so nothing else can be told from it.
-/

namespace TrackedRecord

/-- The field looks alike in both records: the same by structure and, if it is a map, with the same entry
states. -/
structure Record.AlikeAt (r r' : Record Value) (i : Nat) : Prop where
  same : (r.slot i).same (r'.slot i) = true
  states : ∀ field, r.layout.field? i = some field → field.kind = .map →
    (r.slot i).mapOrEmpty.states = (r'.slot i).mapOrEmpty.states

namespace Wire

namespace Payload

variable {registry : Registry} {maxDepth : Nat} {r r' : Record Value}

theorem encodeField_alike {field : Field} {a b : Value}
    (states : field.kind = .map → a.mapOrEmpty.states = b.mapOrEmpty.states) (same : a.same b = true)
    (formedA : a.WellFormed registry) (formedB : b.WellFormed registry) (name : String) :
    encodeField maxDepth name field a = encodeField maxDepth name field b := by
  have encoded := Plain.encode_same maxDepth field.schema same formedA formedB
  have table : encodeTable field a = encodeTable field b := by
    unfold encodeTable encodeStates
    split
    · rw [states ‹_›]
    · rfl
  change (do
    let encoded ← Plain.inside _ (Plain.encode maxDepth field.schema a)
    return encodeTable field a ++ encoded) = _
  rw [table, encoded]
  rfl

theorem encodeFields_alike {layout : Layout} {indices : List Nat} (length : r.slots.length = r'.slots.length)
    (each : ∀ i ∈ indices, ∀ field, layout.fields[i]? = some field →
      encodeField maxDepth layout.name field (r.slot i) = encodeField maxDepth layout.name field (r'.slot i)) :
    encodeFields maxDepth layout r.slots indices = encodeFields maxDepth layout r'.slots indices := by
  induction indices with
  | nil => rfl
  | cons index rest ih =>
    rw [List.forall_mem_cons] at each
    rw [encodeFields, encodeFields, ih each.2, length]
    cases found : layout.fields[index]? with
    | none => rfl
    | some field =>
      dsimp only
      by_cases inside : index < r.slots.length
      · have inside' : index < r'.slots.length := length ▸ inside
        have first := each.1 field found
        rw [Record.slot_of_lt inside, Record.slot_of_lt inside'] at first
        rw [List.getElem?_eq_getElem inside, List.getElem?_eq_getElem inside']
        dsimp only
        rw [first]
      · rw [List.getElem?_eq_none (Nat.not_lt.mp inside), List.getElem?_eq_none (length ▸ Nat.not_lt.mp inside)]

theorem encode_alike (maxDepth : Nat) (formed : r.WellFormed registry) (formed' : r'.WellFormed registry)
    (named : r.typeName = r'.typeName) (dirty : r.dirty = r'.dirty) (readable : r.readable = r'.readable)
    (alike : ∀ i, r.isReadable i = true → r.AlikeAt r' i) :
    encode maxDepth r.layout r = encode maxDepth r.layout r' := by
  have layout := Plain.layout_of_same formed formed' named
  have length : r.slots.length = r'.slots.length := by rw [formed.1.slots, formed'.1.slots, layout]
  have fields : encodeFields maxDepth r.layout r.slots r.readable.ones =
      encodeFields maxDepth r.layout r'.slots r.readable.ones := by
    refine encodeFields_alike length fun i member field found => ?_
    obtain ⟨same, states⟩ := alike i (FieldBits.mem_ones.mp member)
    have value := Record.slot_wellFormed formed i
    have value' := Record.slot_wellFormed formed' i
    exact encodeField_alike (states field found) same value value' _
  rw [encode, encode, fields, dirty, readable]

end Payload

namespace Codec

variable {codec : Codec} {r r' : Record Value}

theorem encode_alike (sound : codec.Sound) (formed : r.WellFormed codec.registry)
    (formed' : r'.WellFormed codec.registry) (named : r.typeName = r'.typeName) (dirty : r.dirty = r'.dirty)
    (readable : r.readable = r'.readable) (alike : ∀ i, r.isReadable i = true → r.AlikeAt r' i) :
    codec.encode r = codec.encode r' := by
  unfold encode checkType
  rw [← named]
  by_cases type : r.typeName = codec.typeName
  · have layout := sound.layout_of_typeName formed type
    have payload := Payload.encode_alike codec.settings.maxDepth formed formed' named dirty readable alike
    rw [← layout, payload]
  · rw [if_neg type]
    rfl

theorem encode_restrictTo_alike (sound : codec.Sound) (formed : r.WellFormed codec.registry)
    (formed' : r'.WellFormed codec.registry) (named : r.typeName = r'.typeName) (dirty : r.dirty = r'.dirty)
    {selection : FieldBits}
    (alike : ∀ i, selection.get i = true →
      r.isReadable i = r'.isReadable i ∧ (r.isReadable i = true → r.AlikeAt r' i)) :
    codec.encode (r.restrictTo selection) = codec.encode (r'.restrictTo selection) := by
  have kept := formed.restrictTo selection
  have kept' := formed'.restrictTo selection
  have get := formed.1.isReadable_restrictTo selection
  have get' := formed'.1.isReadable_restrictTo selection
  have layout := Plain.layout_of_same formed formed' named
  have len : (r.restrictTo selection).readable.len = (r'.restrictTo selection).readable.len := by
    refine kept.1.readableLen.trans (Eq.trans ?_ kept'.1.readableLen.symm)
    exact congrArg Layout.fieldCount layout
  have readable : (r.restrictTo selection).readable = (r'.restrictTo selection).readable := by
    refine FieldBits.ext kept.1.readable kept'.1.readable len fun i => ?_
    refine (get i).trans (Eq.trans ?_ (get' i).symm)
    cases selected : selection.get i with
    | false => rw [Bool.and_false, Bool.and_false]
    | true => rw [(alike i selected).1]
  refine encode_alike sound kept kept' named dirty readable fun i isReadable => ?_
  rw [get, Bool.and_eq_true] at isReadable
  obtain ⟨same, states⟩ := (alike i isReadable.2).2 isReadable.1
  exact ⟨same, states⟩

/-- Records with the same bits that look alike in their readable fields have one payload, or fail with one
error. After a selection only the selected fields count. -/
theorem encode_hides (made : codec.Made) (formed : r.WellFormed codec.registry)
    (formed' : r'.WellFormed codec.registry) (named : r.typeName = r'.typeName) (dirty : r.dirty = r'.dirty) :
    (r.readable = r'.readable → (∀ i, r.isReadable i = true → r.AlikeAt r' i) →
        codec.encode r = codec.encode r') ∧
      ∀ selection : FieldBits,
        (∀ i, selection.get i = true →
          r.isReadable i = r'.isReadable i ∧ (r.isReadable i = true → r.AlikeAt r' i)) →
        codec.encode (r.restrictTo selection) = codec.encode (r'.restrictTo selection) :=
  ⟨encode_alike made.sound formed formed' named dirty,
    fun _ => encode_restrictTo_alike made.sound formed formed' named dirty⟩

end Codec

end Wire

namespace Node

/-- The sample with its number hidden. -/
def veiled : Record Value := { sample with readable := FieldBits.ofBools [false, true, true] }

/-- Another number behind the veil, and other bits in the node behind. -/
def altered : Record Value :=
  { veiled with
    slots :=
      [.int 6, .record ⟨layout, [.int 7, .null, .map {}], layout.selectAll, FieldBits.new 3⟩, sample.slot 2] }

theorem veiled_wellFormed : veiled.WellFormed registry := by
  obtain ⟨shaped, slots⟩ := sample_wellFormed
  exact ⟨⟨rfl, rfl, shaped.dirty, rfl, FieldBits.ofBools_wellFormed _, rfl⟩, slots⟩

theorem altered_wellFormed : altered.WellFormed registry := by
  have next := Value.wellFormed_record.mp (Record.slot_wellFormed sample_wellFormed 1)
  have named := Record.slot_wellFormed sample_wellFormed 2
  have inner : Record.WellFormed registry
      ⟨layout, [.int 7, .null, .map {}], layout.selectAll, FieldBits.new 3⟩ :=
    ⟨⟨rfl, rfl, FieldBits.ofBools_wellFormed [true, true, true], rfl, FieldBits.new_wellFormed 3, rfl⟩, next.2⟩
  refine ⟨⟨rfl, rfl, veiled_wellFormed.1.dirty, rfl, veiled_wellFormed.1.readable, rfl⟩, ?_⟩
  simp only [altered, List.forall_mem_cons]
  exact ⟨trivial, Value.wellFormed_record.mpr inner, named, List.forall_mem_nil _⟩

end Node

/-- Neither the hidden number nor the bits of the node behind are told. -/
theorem Wire.Codec.encode_hides_node :
    Node.codec.encode Node.veiled =
        .ok [3, 1, 3, 6, 1, 7, 0, 0, 0, 0, 0, 1, 1, 0x61, 2, 1, 1, 0x62, 9, 0, 0, 0] ∧
      Node.codec.encode Node.altered = Node.codec.encode Node.veiled ∧
      Node.codec.encode (Node.altered.restrictTo (FieldBits.ofBools [true, true, false])) =
        Node.codec.encode (Node.veiled.restrictTo (FieldBits.ofBools [true, true, false])) := by
  have alike (i : Nat) (isReadable : Node.altered.isReadable i = true) : Node.altered.AlikeAt Node.veiled i := by
    rcases i with _ | _ | _ | i
    · cases isReadable
    · exact ⟨rfl, fun field found map => by cases found; cases map⟩
    · exact ⟨rfl, fun _ _ _ => rfl⟩
    · exact ⟨rfl, fun _ found _ => by cases found⟩
  obtain ⟨whole, part⟩ := Wire.Codec.encode_hides Node.codec_made Node.altered_wellFormed Node.veiled_wellFormed
    rfl rfl
  exact ⟨rfl, whole rfl alike, part _ fun i _ => ⟨rfl, alike i⟩⟩

end TrackedRecord
