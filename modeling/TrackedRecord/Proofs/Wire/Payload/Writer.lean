import TrackedRecord.Proofs.Wire.Plain.Writer
import TrackedRecord.Wire.Payload

/-!
# The writer of payloads

The bytes of a payload are those of its bits and of its readable fields, each with its table in front.
-/

namespace TrackedRecord.Wire.Payload

variable {maxDepth : Nat} {bytes : List UInt8}

/-- The entry states that are written with a field. -/
def tableOf (field : Field) (value : Value) : List (String × EntryState) :=
  if field.kind = .map then value.mapOrEmpty.states else []

/-- The bytes in front of a field. -/
def encodeTable (field : Field) (value : Value) : List UInt8 :=
  if field.kind = .map then encodeStates value else []

theorem encodeField_ok {name : String} {field : Field} {value : Value} :
    encodeField maxDepth name field value = .ok bytes ↔
      ∃ encoded, Plain.encode maxDepth field.schema value = .ok encoded ∧
        bytes = encodeTable field value ++ encoded := by
  refine Result.part_ok.trans ?_
  simp only [Plain.inside_ok]
  rfl

theorem encodeFields_cons {layout : Layout} {slots : List Value} {index : Nat} {rest : List Nat} :
    encodeFields maxDepth layout slots (index :: rest) = .ok bytes ↔
      ∃ field value first others, layout.fields[index]? = some field ∧ slots[index]? = some value ∧
        encodeField maxDepth layout.name field value = .ok first ∧
        encodeFields maxDepth layout slots rest = .ok others ∧
          bytes = first ++ others := by
  rw [encodeFields]
  constructor
  · intro h
    split at h
    · cases h
    · split at h
      · cases h
      · obtain ⟨first, others, parts⟩ := Result.parts_ok.mp h
        exact ⟨_, _, first, others, ‹_›, ‹_›, parts⟩
  · rintro ⟨field, value, first, others, found, present, parts⟩
    rw [found, present]
    exact Result.parts_ok.mpr ⟨first, others, parts⟩

theorem encode_ok {layout : Layout} {r : Record Value} :
    encode maxDepth layout r = .ok bytes ↔
      ∃ fields, encodeFields maxDepth layout r.slots r.readable.ones = .ok fields ∧
        bytes = encodeBits r.dirty ++ encodeBits r.readable ++ fields :=
  Result.part_ok

end TrackedRecord.Wire.Payload
