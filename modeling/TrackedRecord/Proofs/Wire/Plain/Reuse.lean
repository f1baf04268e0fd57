import TrackedRecord.Proofs.Registry.Built
import TrackedRecord.Proofs.Wire.Plain.Reader

/-!
# Values in place

What is decoded in place of a well-formed value is what is decoded in place of none: nothing of the old
value is left, at any depth, whatever the two have in common.
-/

namespace TrackedRecord.Wire.Plain

variable {registry : Registry} {settings : Settings}

/-- The value in place may be any well-formed one. -/
def Indifferent (registry : Registry) (decode : Option Value → Decoder Value) : Prop :=
  ∀ reuse, (∀ value, reuse = some value → value.WellFormed registry) → decode reuse = decode none

theorem wellFormed_none (value : Value) (present : none = some value) : value.WellFormed registry := by
  cases present

theorem Indifferent.inPlace {decode : Option Value → Decoder Value} (same : Indifferent registry decode)
    {value : Value}
    (formed : value.WellFormed registry) : decode (some value) = decode none :=
  same (some value) fun _ present => Option.some.inj present ▸ formed

theorem Indifferent.head? {decode : Option Value → Decoder Value} (same : Indifferent registry decode)
    {previous : List Value} (formed : ∀ value ∈ previous, value.WellFormed registry) :
    decode previous.head? = decode none :=
  same _ fun value first => formed value (List.mem_of_head? first)

/-- The record of a layout, decoded in place of none: every field readable, none dirty. -/
def readRecord (decode : Schema → Option Value → Decoder Value) (layout : Layout) :
    Decoder (Record Value) := do
  let slots ← decodeFields decode layout.name layout.fields []
  return ⟨layout, slots, FieldBits.new layout.fieldCount, layout.selectAll⟩

theorem decodeItems_reuse {decode : Option Value → Decoder Value} (same : Indifferent registry decode)
    (left i : Nat) {previous : List Value} (formed : ∀ value ∈ previous, value.WellFormed registry)
    (before : List Value) :
    decodeItems decode left i previous before = decodeItems decode left i [] before := by
  induction left generalizing i previous before with
  | zero => rfl
  | succ left ih =>
    rw [decodeItems, decodeItems, same.head? formed]
    congr 1
    funext item
    exact ih _ (fun value later => formed value (List.mem_of_mem_tail later)) _

theorem decodeEntries_reuse {decode : Option Value → Decoder Value} (same : Indifferent registry decode)
    {previous : StateMap Value} (formed : ∀ entry ∈ previous.entries, entry.2.WellFormed registry)
    (left : Nat)
    (m : StateMap Value) :
    decodeEntries settings decode previous left m = decodeEntries settings decode StateMap.empty left m := by
  induction left generalizing m with
  | zero => rfl
  | succ left ih =>
    have inPlace (key : String) : decode (previous.get? key) = decode none :=
      same _ fun value found => formed (key, value) (Keyed.mem_of_get? found)
    simp only [decodeEntries, ih, inPlace]
    rfl

theorem decodeFields_reuse {decode : Schema → Option Value → Decoder Value}
    (same : ∀ schema, Indifferent registry (decode schema)) (name : String) (fields : List Field)
    {previous : List Value} (formed : ∀ value ∈ previous, value.WellFormed registry) :
    decodeFields decode name fields previous = decodeFields decode name fields [] := by
  induction fields generalizing previous with
  | nil => rfl
  | cons field fields ih =>
    rw [decodeFields, decodeFields, (same field.schema).head? formed]
    congr 1
    funext value
    rw [ih fun value later => formed value (List.mem_of_mem_tail later)]
    rfl

theorem refill_eq {decode : Schema → Option Value → Decoder Value}
    (same : ∀ schema, Indifferent registry (decode schema))
    {target : Record Value} (formed : target.WellFormed registry) :
    refill decode target = readRecord decode target.layout := by
  unfold refill readRecord
  rw [decodeFields_reuse same _ _ formed.2]

theorem decodeWith_reuse {record : RecordRef → Option Value → Decoder Value}
    (nested : ∀ type, Indifferent registry (record type)) (schema : Schema) :
    Indifferent registry (decodeWith settings record schema) := by
  induction schema using Schema.induction with
  | primitive kind =>
    intro reuse _
    rw [decodeWith, decodeWith]
  | enum e =>
    intro reuse _
    rw [decodeWith, decodeWith]
  | fixed f =>
    intro reuse _
    rw [decodeWith, decodeWith]
  | record type =>
    intro reuse formed
    rw [decodeWith, decodeWith]
    exact nested type reuse formed
  | array element ih =>
    intro reuse formed
    have items := InPlace.items formed fun _ _ part_of formed => Value.WellFormed.part formed part_of
    rw [decodeWith, decodeWith]
    simp only [decodeItems_reuse ih _ _ items]
    rfl
  | map value ih =>
    intro reuse formed
    have entries := InPlace.entries formed fun _ _ part_of formed => Value.WellFormed.part formed part_of
    rw [decodeWith, decodeWith]
    simp only [decodeEntriesOf, decodeEntries_reuse ih entries]
    rfl
  | union branches ih =>
    intro reuse formed
    have inBranch {reuse : Option Value} (formed : ∀ value, reuse = some value → value.WellFormed registry)
        (outside : Error) (branch : Nat) : decodeBranch settings record outside branches branch reuse =
          decodeBranch settings record outside branches branch none :=
      decodeBranch_related rfl (fun type member => ih type member reuse formed) branch
    have inside := InPlace.branch formed fun _ _ part_of formed => Value.WellFormed.part formed part_of
    rw [decodeWith, decodeWith]
    simp only [inBranch formed, inBranch (inside _)]
    rfl

theorem targetOf_wellFormed (sound : registry.Sound) {name : String} {compiled : CompiledRecord}
    (found : registry.record? name = some compiled) (reuse : Option Value)
    (formed : ∀ value, reuse = some value → value.WellFormed registry) :
    (targetOf compiled reuse).layout = compiled.layout ∧ (targetOf compiled reuse).WellFormed registry := by
  unfold targetOf
  split
  · rename_i r
    split
    · rename_i same
      have known := Value.wellFormed_record.mp (formed _ rfl)
      have layout := known.1.layout
      rw [same, Registry.fullName_of_record? found, Registry.get?_of_record? found] at layout
      exact ⟨(Option.some.inj layout).symm, known⟩
    · exact sound.makes found
  · exact sound.makes found

theorem decodeNested_reuse (sound : registry.Sound) (maxDepth left : Nat) (type : RecordRef) :
    Indifferent registry (decodeNested registry settings maxDepth left type) := by
  induction left generalizing type with
  | zero =>
    intro reuse _
    rw [decodeNested, decodeNested]
  | succ left ih =>
    intro reuse formed
    rw [decodeNested, decodeNested]
    cases found : registry.record? type.fullName with
    | none => rfl
    | some compiled =>
      obtain ⟨layout, known⟩ := targetOf_wellFormed sound found reuse formed
      obtain ⟨layoutNone, knownNone⟩ := targetOf_wellFormed sound found none wellFormed_none
      simp only [refill_eq (decodeWith_reuse ih) known, refill_eq (decodeWith_reuse ih) knownNone, layout,
        layoutNone]

/-- A nested record is read field by field, whatever instances the maker of its type gives. -/
theorem decodeNested_none (sound : registry.Sound) (maxDepth left : Nat) {type : RecordRef}
    {compiled : CompiledRecord}
    (found : registry.record? type.fullName = some compiled) :
    decodeNested registry settings maxDepth (left + 1) type none =
      Value.record <$> readRecord (decodeWith settings (decodeNested registry settings maxDepth left))
        compiled.layout := by
  obtain ⟨layout, known⟩ := targetOf_wellFormed sound found none wellFormed_none
  rw [decodeNested]
  simp only [found]
  rw [refill_eq (decodeWith_reuse (decodeNested_reuse sound maxDepth left)) known, layout]
  rfl

theorem decode_reuse (sound : registry.Sound) (maxDepth : Nat) (schema : Schema) :
    Indifferent registry (decode registry settings maxDepth schema) :=
  decodeWith_reuse (decodeNested_reuse sound maxDepth maxDepth) schema

end TrackedRecord.Wire.Plain
