import TrackedRecord.Proofs.Schema.Induction
import TrackedRecord.Proofs.Value.Parts
import TrackedRecord.Proofs.Wire.Sequential
import TrackedRecord.Wire.Plain.Reader

/-!
# The reader of plain values

A branch is looked up by its position, and the whole reader is sequential as soon as the reader of nested
records is.
-/

namespace TrackedRecord.Wire.Plain

variable {settings : Settings} {record : RecordRef → Option Value → Decoder Value}

theorem decodeBranch_some {outside : Error} {branches : List Schema} {branch : Nat} {type : Schema}
    {reuse : Option Value} (found : branches[branch]? = some type) :
    decodeBranch settings record outside branches branch reuse = decodeWith settings record type reuse := by
  induction branches generalizing branch with
  | nil => cases found
  | cons head rest ih =>
    cases branch with
    | zero =>
      obtain rfl := Option.some.inj found
      rw [decodeBranch]
    | succ branch =>
      rw [decodeBranch]
      exact ih found

theorem decodeBranch_none {outside : Error} {branches : List Schema} {branch : Nat} {reuse : Option Value}
    (absent : branches[branch]? = none) :
    decodeBranch settings record outside branches branch reuse = throw outside := by
  induction branches generalizing branch with
  | nil => rw [decodeBranch]
  | cons head rest ih =>
    cases branch with
    | zero => cases absent
    | succ branch =>
      rw [decodeBranch]
      exact ih absent

/-- What holds of every branch and of the error holds at any position. -/
theorem decodeBranch_of_each {P : Decoder Value → Prop} {outside : Error} {branches : List Schema}
    {reuse : Option Value} (error : P (throw outside))
    (each : ∀ type ∈ branches, P (decodeWith settings record type reuse)) (branch : Nat) :
    P (decodeBranch settings record outside branches branch reuse) := by
  cases found : branches[branch]? with
  | none =>
    rw [decodeBranch_none found]
    exact error
  | some type =>
    rw [decodeBranch_some found]
    exact each type (List.mem_of_getElem? found)

/-- Two readers that are related in every branch are related at any position. -/
theorem decodeBranch_related {R : Decoder Value → Decoder Value → Prop} {other : Settings}
    {nested : RecordRef → Option Value → Decoder Value} {outside : Error} {branches : List Schema}
    {reuse reuse' : Option Value} (error : R (throw outside) (throw outside))
    (each : ∀ type ∈ branches, R (decodeWith settings record type reuse) (decodeWith other nested type reuse'))
    (branch : Nat) :
    R (decodeBranch settings record outside branches branch reuse)
      (decodeBranch other nested outside branches branch reuse') := by
  cases found : branches[branch]? with
  | none =>
    rw [decodeBranch_none found, decodeBranch_none found]
    exact error
  | some type =>
    rw [decodeBranch_some found, decodeBranch_some found]
    exact each type (List.mem_of_getElem? found)

/-! ### Values in place -/

/-- What stands in place of a value, if anything, is as `P` says. -/
def InPlace (P : Value → Prop) (reuse : Option Value) : Prop := ∀ value, reuse = some value → P value

theorem sameBranch?_some {branch : Nat} {value part : Value} (found : sameBranch? branch value = some part) :
    value = .union branch part := by
  cases value with
  | union b inner =>
    rw [sameBranch?] at found
    split at found
    · cases found
      rw [‹b = branch›]
    · cases found
  | _ => cases found

namespace InPlace

variable {P : Value → Prop} {reuse : Option Value}

theorem some {value : Value} (holds : P value) : InPlace P (some value) := by
  rintro _ ⟨⟩
  exact holds

section

variable (inPlace : InPlace P reuse) (inherited : ∀ value part, part ∈ value.parts → P value → P part)

include inPlace inherited

theorem items : ∀ item ∈ (reuse.bind Value.array?).getD [], P item := by
  cases reuse with
  | none => exact List.forall_mem_nil _
  | some value =>
    cases value with
    | array items => exact fun item member => inherited (.array items) item member (inPlace _ rfl)
    | _ => exact List.forall_mem_nil _

theorem entries : ∀ entry ∈ ((reuse.bind Value.map?).getD StateMap.empty).entries, P entry.2 := by
  cases reuse with
  | none => exact List.forall_mem_nil _
  | some value =>
    cases value with
    | map m => exact fun entry member => inherited (.map m) _ (List.mem_map_of_mem member) (inPlace _ rfl)
    | _ => exact List.forall_mem_nil _

theorem branch (number : Nat) : InPlace P (reuse.bind (sameBranch? number)) := by
  intro part found
  obtain ⟨value, present, here⟩ := Option.bind_eq_some_iff.mp found
  obtain rfl := sameBranch?_some here
  exact inherited _ part List.mem_cons_self (inPlace _ present)

end

end InPlace

/-! ### Sequential reading -/

theorem decodePrimitive_sequential (kind : Primitive) : Sequential (decodePrimitive settings kind) := by
  cases kind with
  | null => exact Sequential.pure _
  | boolean => exact Decoder.boolean_sequential.map
  | int => exact (Decoder.fixedWidth_sequential 4).map.map
  | long => exact (Decoder.fixedWidth_sequential 8).map.map
  | float => exact (Decoder.fixedWidth_sequential 4).map.map
  | double => exact (Decoder.fixedWidth_sequential 8).map.map
  | bytes => exact (Decoder.byteString_sequential settings).map
  | string => exact (Decoder.text_sequential settings).map

theorem decodeEnum_sequential (e : EnumType) : Sequential (decodeEnum e) := by
  refine Sequential.position.bind fun start => Decoder.varint_sequential.bind fun ordinal => ?_
  exact Sequential.ite (Sequential.pure _) (Sequential.throw _)

theorem decodeItems_sequential {decode : Option Value → Decoder Value}
    (each : ∀ reuse, Sequential (decode reuse))
    (left i : Nat) (previous before : List Value) :
    Sequential (decodeItems decode left i previous before) := by
  induction left generalizing i previous before with
  | zero => exact Sequential.pure _
  | succ left ih => exact (each _).within.bind fun item => ih _ _ _

theorem decodeEntries_sequential {decode : Option Value → Decoder Value}
    (each : ∀ reuse, Sequential (decode reuse))
    (previous : StateMap Value) (left : Nat) (m : StateMap Value) :
    Sequential (decodeEntries settings decode previous left m) := by
  induction left generalizing m with
  | zero => exact Sequential.pure _
  | succ left ih =>
    refine Sequential.position.bind fun start => (Decoder.text_sequential settings).bind fun key => ?_
    exact Sequential.ite (Sequential.throw _) ((each _).within.bind fun value => ih _)

theorem decodeFields_sequential {decode : Schema → Option Value → Decoder Value}
    (each : ∀ schema reuse, Sequential (decode schema reuse)) (name : String) (fields : List Field)
    (previous : List Value) : Sequential (decodeFields decode name fields previous) := by
  induction fields generalizing previous with
  | nil => exact Sequential.pure _
  | cons field fields ih =>
    exact (each _ _).within.bind fun value => (ih _).map

theorem decodeWith_sequential (nested : ∀ type reuse, Sequential (record type reuse)) (schema : Schema)
    (reuse : Option Value) : Sequential (decodeWith settings record schema reuse) := by
  induction schema using Schema.induction generalizing reuse with
  | primitive kind =>
    rw [decodeWith]
    exact decodePrimitive_sequential kind
  | enum e =>
    rw [decodeWith]
    exact decodeEnum_sequential e
  | fixed f =>
    rw [decodeWith]
    exact (Decoder.exact_sequential f.size).map
  | record type =>
    rw [decodeWith]
    exact nested type reuse
  | array element ih =>
    rw [decodeWith]
    refine (Decoder.count_sequential settings).bind fun count => ?_
    exact (decodeItems_sequential ih _ _ _ _).map
  | map value ih =>
    rw [decodeWith]
    refine Sequential.bind ((Decoder.count_sequential settings).bind fun count => ?_) fun _ =>
      Sequential.pure _
    exact decodeEntries_sequential ih _ _ _
  | union branches ih =>
    have inBranch (outside : Error) (branch : Nat) (reuse : Option Value) :
        Sequential (decodeBranch settings record outside branches branch reuse) :=
      decodeBranch_of_each (Sequential.throw _) (fun type member => ih type member reuse) branch
    rw [decodeWith]
    refine Sequential.position.bind fun start => Decoder.varint_sequential.bind fun branch => ?_
    cases Schema.nullPosition? branches with
    | some _ => exact inBranch _ _ _
    | none => exact (inBranch _ _ _).map

theorem decodeNested_sequential (registry : Registry) (settings : Settings) (maxDepth left : Nat)
    (type : RecordRef)
    (reuse : Option Value) : Sequential (decodeNested registry settings maxDepth left type reuse) := by
  induction left generalizing type reuse with
  | zero =>
    rw [decodeNested]
    exact Sequential.position.bind fun _ => Sequential.throw _
  | succ left ih =>
    rw [decodeNested]
    cases registry.record? type.fullName with
    | none => exact Sequential.throw _
    | some compiled =>
      refine Sequential.bind ?_ fun _ => Sequential.pure _
      exact (decodeFields_sequential (decodeWith_sequential ih) _ _ _).map

theorem decode_sequential (registry : Registry) (settings : Settings) (maxDepth : Nat) (schema : Schema)
    (reuse : Option Value) : Sequential (decode registry settings maxDepth schema reuse) :=
  decodeWith_sequential (decodeNested_sequential registry settings maxDepth maxDepth) schema reuse

end TrackedRecord.Wire.Plain
