import TrackedRecord.Proofs.Schema.Mentions
import TrackedRecord.Proofs.Wire.Plain.Reuse
import TrackedRecord.Proofs.Wire.Reports

/-!
# Plain values of closed registries

In a closed registry the fields of records mention compiled records only. Values of its types are read
without ever missing a type.
-/

namespace TrackedRecord.Registry

/-- The records that the schema mentions are compiled. -/
def Covers (registry : Registry) (schema : Schema) : Prop :=
  ∀ r, .record r ∈ schema.mentioned → (registry.get? r.fullName).isSome

/-- The records that the fields of records mention are compiled. -/
def Closed (registry : Registry) : Prop :=
  ∀ name layout, registry.get? name = some layout → ∀ field ∈ layout.fields, registry.Covers field.schema

variable {registry : Registry}

theorem Covers.element {element : Schema} (covers : registry.Covers (.array element)) :
    registry.Covers element := by
  rwa [Covers, Schema.mentioned] at covers

theorem Covers.value {value : Schema} (covers : registry.Covers (.map value)) : registry.Covers value := by
  rwa [Covers, Schema.mentioned] at covers

theorem Covers.branch {branches : List Schema} (covers : registry.Covers (.union branches)) {branch : Schema}
    (member : branch ∈ branches) : registry.Covers branch :=
  fun r mentioned => covers r (Schema.mem_mentioned_union.mpr ⟨branch, member, mentioned⟩)

theorem Covers.record {r : RecordRef} (covers : registry.Covers (.record r)) :
    (registry.get? r.fullName).isSome :=
  covers r (by rw [Schema.mentioned]; exact List.mem_cons_self)

end TrackedRecord.Registry

namespace TrackedRecord.Wire.Plain

variable {size : Nat} {registry : Registry} {settings : Settings}

theorem decodePrimitive_reports (kind : Primitive) : Reports size (decodePrimitive settings kind) := by
  cases kind with
  | null => exact Reports.pure _
  | boolean => exact Decoder.boolean_reports.map
  | int => exact (Decoder.fixedWidth_reports 4).map.map
  | long => exact (Decoder.fixedWidth_reports 8).map.map
  | float => exact (Decoder.fixedWidth_reports 4).map.map
  | double => exact (Decoder.fixedWidth_reports 8).map.map
  | bytes => exact Decoder.byteString_reports.map
  | string => exact Decoder.text_reports.map

theorem decodeEnum_reports (e : EnumType) : Reports size (decodeEnum e) := by
  refine Reports.position fun start inside => Decoder.varint_reports.bind fun ordinal => ?_
  exact Reports.ite (Reports.pure _) (Reports.throw (.malformed inside fun _ same => Cause.noConfusion same))

theorem decodeItems_reports {decode : Option Value → Decoder Value} (each : Reports size (decode none))
    (left i : Nat) (before : List Value) : Reports size (decodeItems decode left i [] before) := by
  induction left generalizing i before with
  | zero => exact Reports.pure _
  | succ left ih => exact each.within.bind fun item => ih _ _

theorem decodeEntries_reports {decode : Option Value → Decoder Value} (each : Reports size (decode none))
    (left : Nat) (m : StateMap Value) : Reports size (decodeEntries settings decode StateMap.empty left m) := by
  induction left generalizing m with
  | zero => exact Reports.pure _
  | succ left ih =>
    refine Reports.position fun start inside => Decoder.text_reports.bind fun key => ?_
    exact Reports.ite (Reports.throw (.malformed inside fun _ same => Cause.noConfusion same))
      (each.within.bind fun value => ih _)

theorem decodeFields_reports {decode : Schema → Option Value → Decoder Value} {fields : List Field}
    (each : ∀ field ∈ fields, Reports size (decode field.schema none)) (name : String) :
    Reports size (decodeFields decode name fields []) := by
  induction fields with
  | nil => exact Reports.pure _
  | cons field fields ih =>
    rw [List.forall_mem_cons] at each
    exact each.1.within.bind fun value => (ih each.2).map

theorem decodeWith_reports {record : RecordRef → Option Value → Decoder Value}
    (nested : ∀ type, (registry.get? type.fullName).isSome → Reports size (record type none))
    {schema : Schema} (covers : registry.Covers schema) :
    Reports size (decodeWith settings record schema none) := by
  induction schema using Schema.induction with
  | primitive kind =>
    rw [decodeWith]
    exact decodePrimitive_reports kind
  | enum e =>
    rw [decodeWith]
    exact decodeEnum_reports e
  | fixed f =>
    rw [decodeWith]
    exact (Decoder.exact_reports f.size).map
  | record type =>
    rw [decodeWith]
    exact nested type covers.record
  | array element ih =>
    rw [decodeWith]
    exact Decoder.count_reports.bind fun count => (decodeItems_reports (ih covers.element) _ _ _).map
  | map value ih =>
    rw [decodeWith]
    exact (Decoder.count_reports.bind fun count => decodeEntries_reports (ih covers.value) _ _).map
  | union branches ih =>
    have inBranch {outside : Error} (proper : outside.Proper size) (branch : Nat) :
        Reports size (decodeBranch settings record outside branches branch none) :=
      decodeBranch_of_each (Reports.throw proper)
        (fun type member => ih type member (covers.branch member)) branch
    rw [decodeWith]
    refine Reports.position fun start inside => Decoder.varint_reports.bind fun branch => ?_
    have proper : (Error.malformed start (.unionBranch branch (Schema.union branches).display)).Proper size :=
      .malformed inside fun _ same => Cause.noConfusion same
    cases Schema.nullPosition? branches with
    | some _ => exact inBranch proper _
    | none => exact (inBranch proper _).map

theorem decodeNested_reports (sound : registry.Sound) (closed : registry.Closed) (maxDepth left : Nat)
    {type : RecordRef} (compiled : (registry.get? type.fullName).isSome) :
    Reports size (decodeNested registry settings maxDepth left type none) := by
  induction left generalizing type with
  | zero =>
    rw [decodeNested]
    exact Reports.position fun start inside =>
      Reports.throw (.malformed inside fun _ same => Cause.noConfusion same)
  | succ left ih =>
    obtain ⟨layout, known⟩ := Option.isSome_iff_exists.mp compiled
    obtain ⟨compiled, found, rfl⟩ := Registry.record?_of_get? known
    rw [decodeNested_none sound maxDepth left found]
    refine Reports.map (Reports.map (decodeFields_reports ?_ _))
    exact fun field member => decodeWith_reports (fun type => ih) (closed _ _ known field member)

/-- A value of a covered schema is read properly, whatever stands in its place. -/
theorem decode_reports (sound : registry.Sound) (closed : registry.Closed) (maxDepth : Nat) {schema : Schema}
    (covers : registry.Covers schema) {reuse : Option Value}
    (formed : ∀ value, reuse = some value → value.WellFormed registry) :
    Reports size (decode registry settings maxDepth schema reuse) := by
  rw [decode_reuse sound maxDepth schema reuse formed]
  exact decodeWith_reports (fun type => decodeNested_reports sound closed maxDepth maxDepth) covers

end TrackedRecord.Wire.Plain
