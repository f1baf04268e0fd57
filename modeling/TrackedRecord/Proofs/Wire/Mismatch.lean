import TrackedRecord.Proofs.Result
import TrackedRecord.Proofs.Schema.Induction
import TrackedRecord.Proofs.Wire.Reports
import TrackedRecord.Wire.Payload

/-!
# What writers refuse

A value that cannot be written does not match its schema or nests too deep. Nothing is looked up by its
name, so no writer reports a type that is not compiled.
-/

namespace TrackedRecord.Wire

open Result (Raises)

/-- An error of a value that does not match. -/
structure Error.Mismatch (e : Error) : Prop where
  kind : e.kind = .valueMismatch
  compiled : e.Compiled

theorem Error.Mismatch.of_cause {cause : Cause}
    (compiled : ∀ type, cause ≠ .notCompiled type) :
    (Error.valueMismatch cause).Mismatch := ⟨rfl, compiled⟩

theorem Error.Compiled.raised {α : Type} {e : Error} (compiled : e.Compiled := by intro _ same; cases same) :
    Raises Error.Compiled (.error e : Except Error α) := Raises.error compiled

namespace Plain

theorem inside_mismatches {α : Type} {segment : String} {x : Except Error α} (inner : Raises Error.Mismatch x) :
    Raises Error.Mismatch (inside segment x) := by
  cases x with
  | ok a => exact Raises.ok a
  | error e =>
    obtain ⟨kind, compiled⟩ := inner e rfl
    exact Raises.error ⟨kind, compiled⟩

theorem shapeError_mismatch (expected : String) (value : Value) : (shapeError expected value).Mismatch :=
  .of_cause nofun

theorem encodePrimitive_mismatches (kind : Primitive) (value : Value) :
    Raises Error.Mismatch (encodePrimitive kind value) := by
  unfold encodePrimitive
  split
  all_goals first
    | exact Raises.ok _
    | exact Raises.error (shapeError_mismatch _ _)

theorem encodeEnum_mismatches (e : EnumType) (value : Value) : Raises Error.Mismatch (encodeEnum e value) := by
  unfold encodeEnum
  split
  · split
    · exact Raises.ok _
    · exact Raises.error (.of_cause nofun)
  · exact Raises.error (shapeError_mismatch _ _)

theorem encodeFixed_mismatches (f : FixedType) (value : Value) :
    Raises Error.Mismatch (encodeFixed f value) := by
  unfold encodeFixed
  split
  · split
    · exact Raises.ok _
    · exact Raises.error (.of_cause nofun)
  · exact Raises.error (shapeError_mismatch _ _)

variable {encode : Value → Except Error (List UInt8)} {record : RecordRef → Value → Except Error (List UInt8)}

theorem encodeItems_mismatches (each : ∀ item, Raises Error.Mismatch (encode item)) (i : Nat)
    (items : List Value) :
    Raises Error.Mismatch (encodeItems encode i items) := by
  induction items generalizing i with
  | nil => exact Raises.ok _
  | cons item rest ih => exact (inside_mismatches (each item)).parts (ih _)

theorem encodeEntries_mismatches (each : ∀ value, Raises Error.Mismatch (encode value))
    (entries : List (String × Value)) :
    Raises Error.Mismatch (encodeEntries encode entries) := by
  induction entries with
  | nil => exact Raises.ok _
  | cons entry rest ih => exact (inside_mismatches (each entry.2)).parts ih

theorem encodeFields_mismatches {encode : Schema → Value → Except Error (List UInt8)}
    (each : ∀ schema value, Raises Error.Mismatch (encode schema value)) (name : String) (fields : List Field)
    (values : List Value) : Raises Error.Mismatch (encodeFields encode name fields values) := by
  induction fields generalizing values with
  | nil => exact Raises.ok _
  | cons field fields ih =>
    cases values with
    | nil => exact Raises.ok _
    | cons value values => exact (inside_mismatches (each _ value)).parts (ih values)

theorem encodeBranch_mismatches {branches : List Schema}
    (each : ∀ branch ∈ branches, ∀ value, Raises Error.Mismatch (encodeWith record branch value)) (left : Nat)
    (schema : String) (branch : Nat) (value : Value) :
    Raises Error.Mismatch (encodeBranch record branches left schema branch value) := by
  induction branches generalizing left with
  | nil =>
    rw [encodeBranch]
    exact Raises.error (.of_cause nofun)
  | cons type rest ih =>
    rw [List.forall_mem_cons] at each
    cases left with
    | zero =>
      rw [encodeBranch]
      exact (each.1 value).part
    | succ left =>
      rw [encodeBranch]
      exact ih each.2 left

theorem encodeWith_mismatches (nested : ∀ type value, Raises Error.Mismatch (record type value))
    (schema : Schema) (value : Value) : Raises Error.Mismatch (encodeWith record schema value) := by
  induction schema using Schema.induction generalizing value with
  | primitive kind =>
    rw [encodeWith]
    exact encodePrimitive_mismatches kind value
  | enum e =>
    rw [encodeWith]
    exact encodeEnum_mismatches e value
  | fixed f =>
    rw [encodeWith]
    exact encodeFixed_mismatches f value
  | record type =>
    rw [encodeWith]
    exact nested type value
  | array element ih =>
    unfold encodeWith
    split
    · exact (encodeItems_mismatches ih 0 _).part
    · exact Raises.error (shapeError_mismatch _ _)
  | map schema ih =>
    unfold encodeWith
    split
    · exact (encodeEntries_mismatches ih _).part
    · exact Raises.error (shapeError_mismatch _ _)
  | union branches ih =>
    unfold encodeWith
    split
    · split
      · exact Raises.ok _
      · exact encodeBranch_mismatches ih _ _ _ _
    · split
      · exact encodeBranch_mismatches ih _ _ _ _
      · exact Raises.error (shapeError_mismatch _ _)

theorem recordOf_mismatches (type : RecordRef) (value : Value) :
    Raises Error.Mismatch (recordOf type value) := by
  unfold recordOf
  split
  · split
    · exact Raises.ok _
    · exact Raises.error (.of_cause nofun)
  · exact Raises.error (shapeError_mismatch _ _)

theorem encodeNested_mismatches (maxDepth left : Nat) (type : RecordRef) (value : Value) :
    Raises Error.Mismatch (encodeNested maxDepth left type value) := by
  induction left generalizing type value with
  | zero =>
    rw [encodeNested]
    exact (recordOf_mismatches type value).bind fun _ => Raises.error (.of_cause nofun)
  | succ left ih =>
    rw [encodeNested]
    refine (recordOf_mismatches type value).bind fun r => ?_
    exact encodeFields_mismatches (encodeWith_mismatches ih) _ _ _

theorem encode_mismatches (maxDepth : Nat) (schema : Schema) (value : Value) :
    Raises Error.Mismatch (Plain.encode maxDepth schema value) :=
  encodeWith_mismatches (encodeNested_mismatches maxDepth maxDepth) schema value

end Plain

namespace Payload

theorem encodeField_mismatches (maxDepth : Nat) (name : String) (field : Field) (value : Value) :
    Raises Error.Mismatch (encodeField maxDepth name field value) :=
  (Plain.inside_mismatches (Plain.encode_mismatches maxDepth field.schema value)).part

theorem encodeFields_compiled (maxDepth : Nat) (layout : Layout) (slots : List Value) (indices : List Nat) :
    Raises Error.Compiled (encodeFields maxDepth layout slots indices) := by
  induction indices with
  | nil => exact Raises.ok _
  | cons index rest ih =>
    unfold encodeFields
    split
    · exact Error.Compiled.raised
    · split
      · exact Error.Compiled.raised
      · exact ((encodeField_mismatches maxDepth _ _ _).mono fun _ => Error.Mismatch.compiled).parts ih

end Payload

end TrackedRecord.Wire
