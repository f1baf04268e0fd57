import TrackedRecord.Proofs.Record.Typed
import TrackedRecord.Proofs.Wire.Decoder
import TrackedRecord.Proofs.Wire.Plain.Reader
import TrackedRecord.Proofs.Registry.Built

/-!
# What is read is typed

A value that is read conforms to its schema, and all records in it are typed, whatever stands in its place.
Of that only the records matter: they may be filled again, so they are of layouts of the registry.
-/

namespace TrackedRecord.Wire.Plain

open Decoder (Gives)

variable {registry : Registry} {settings : Settings}

/-- The value conforms to the schema and is typed. -/
def Fitting (registry : Registry) (schema : Schema) (value : Value) : Prop :=
  value.conforms schema = true ∧ value.Typed registry

theorem decodePrimitive_gives (kind : Primitive) :
    Gives (Fitting registry (.primitive kind)) (decodePrimitive settings kind) := by
  have fitting {value : Value} (shape : Value.isPrimitive kind value = true) :
      Fitting registry (.primitive kind) value := by
    have fits : value.conforms (.primitive kind) = true := by
      rw [Value.conforms]
      exact shape
    exact ⟨fits, (Value.flat_of_primitive fits).every⟩
  cases kind with
  | null => exact Gives.pure (fitting rfl)
  | _ => exact (Gives.any _).map fun _ _ => fitting rfl

theorem decodeEnum_gives (e : EnumType) : Gives (Fitting registry (.enum e)) (decodeEnum e) := by
  refine (Gives.any _).bind fun start _ => (Gives.any _).bind fun ordinal _ => ?_
  refine Gives.ite (fun small => Gives.pure ?_) fun _ => Gives.throw _
  exact ⟨Value.conforms_enum.mpr ⟨ordinal, rfl, small⟩, (Value.flat_enum ordinal).every⟩

theorem decodeFixed_gives (f : FixedType) : Gives (Fitting registry (.fixed f)) (decodeFixed f) :=
  (Decoder.exact_gives f.size).map fun data size =>
    ⟨Value.conforms_fixed.mpr ⟨data, rfl, size⟩, (Value.flat_fixed data).every⟩

/-! ### Lists of values -/

theorem decodeItems_gives {P R : Value → Prop} {decode : Option Value → Decoder Value}
    (each : ∀ reuse, InPlace R reuse → Gives P (decode reuse)) (left i : Nat) {previous before : List Value}
    (allowed : ∀ value ∈ previous, R value) (read : ∀ value ∈ before, P value) :
    Gives (fun items => ∀ item ∈ items, P item) (decodeItems decode left i previous before) := by
  induction left generalizing i previous before with
  | zero => exact Gives.pure fun item member => read item (List.mem_reverse.mp member)
  | succ left ih =>
    have head : InPlace R previous.head? := fun value first => allowed value (List.mem_of_head? first)
    refine (each _ head).within.bind fun item holds => ih _ ?_ (List.forall_mem_cons.mpr ⟨holds, read⟩)
    exact fun value later => allowed value (List.mem_of_mem_tail later)

theorem decodeEntries_gives {P R : Value → Prop} {decode : Option Value → Decoder Value}
    (each : ∀ reuse, InPlace R reuse → Gives P (decode reuse)) {previous : StateMap Value}
    (allowed : ∀ entry ∈ previous.entries, R entry.2) (left : Nat) {m : StateMap Value}
    (read : ∀ entry ∈ m.entries, P entry.2) :
    Gives (fun m => ∀ entry ∈ m.entries, P entry.2) (decodeEntries settings decode previous left m) := by
  induction left generalizing m with
  | zero => exact Gives.pure read
  | succ left ih =>
    have found (key : String) : InPlace R (previous.get? key) :=
      fun value here => allowed (key, value) (Keyed.mem_of_get? here)
    refine (Gives.any _).bind fun start _ => (Gives.any _).bind fun key _ => ?_
    refine Gives.ite (fun _ => Gives.throw _) fun _ => (each _ (found key)).within.bind fun value holds => ih ?_
    intro entry member
    rcases Keyed.mem_put member with rfl | present
    · exact holds
    · exact read entry present

theorem decodeFields_gives {P : Schema → Value → Prop} {R : Value → Prop}
    {decode : Schema → Option Value → Decoder Value}
    (each : ∀ schema reuse, InPlace R reuse → Gives (P schema) (decode schema reuse)) (name : String)
    (fields : List Field) {previous : List Value} (allowed : ∀ value ∈ previous, R value) :
    Gives (fun values => values.length = fields.length ∧
      ∀ i field, fields[i]? = some field → P field.schema (values.getD i .null))
      (decodeFields decode name fields previous) := by
  induction fields generalizing previous with
  | nil => exact Gives.pure ⟨rfl, nofun⟩
  | cons field fields ih =>
    have head : InPlace R previous.head? := fun value first => allowed value (List.mem_of_head? first)
    have tail : ∀ value ∈ previous.tail, R value :=
      fun value later => allowed value (List.mem_of_mem_tail later)
    refine (each field.schema _ head).within.bind fun value holds => (ih tail).map ?_
    rintro values ⟨length, others⟩
    refine ⟨congrArg Nat.succ length, fun i other found => ?_⟩
    cases i with
    | zero =>
      cases found
      exact holds
    | succ i => exact others i other found

/-! ### Values -/

section

variable {record : RecordRef → Option Value → Decoder Value}

/-- A value of a branch conforms to the schema of that branch. -/
theorem decodeBranch_gives {branches : List Schema}
    (each : ∀ type ∈ branches, ∀ {reuse}, InPlace (Value.Typed registry) reuse →
      Gives (Fitting registry type) (decodeWith settings record type reuse))
    (outside : Error) (branch : Nat) {reuse : Option Value} (inPlace : InPlace (Value.Typed registry) reuse) :
    Gives (fun value => (∃ type, branches[branch]? = some type ∧ value.conforms type = true) ∧
      value.Typed registry) (decodeBranch settings record outside branches branch reuse) := by
  cases found : branches[branch]? with
  | none =>
    rw [decodeBranch_none found]
    exact Gives.throw _
  | some type =>
    rw [decodeBranch_some found]
    intro c value c' run
    obtain ⟨fits, typed⟩ := each type (List.mem_of_getElem? found) inPlace c value c' run
    exact ⟨⟨type, rfl, fits⟩, typed⟩

/-- Of the two branches of a nullable union, a value stands in the null one or in the other one. -/
theorem conforms_of_nullable {branches : List Schema} {position branch : Nat} {type : Schema} {value : Value}
    (nullable : Schema.nullPosition? branches = some position) (found : branches[branch]? = some type)
    (fits : value.conforms type = true) : value.conforms (.union branches) = true := by
  rw [Value.conforms_nullable nullable]
  obtain ⟨small, length, null⟩ := nullPosition?_some nullable
  by_cases here : branch = position
  · subst here
    obtain rfl := Option.some.inj (null.symm.trans found)
    left
    cases value with
    | null => rfl
    | _ => simp [Value.conforms, Value.isPrimitive] at fits
  · have inside := (List.getElem?_eq_some_iff.mp found).1
    have other : 1 - position = branch := by omega
    exact Or.inr ⟨type, other ▸ found, fits⟩

theorem decodeUnion_gives {branches : List Schema}
    (each : ∀ type ∈ branches, ∀ {reuse}, InPlace (Value.Typed registry) reuse →
      Gives (Fitting registry type) (decodeWith settings record type reuse))
    {reuse : Option Value} (inPlace : InPlace (Value.Typed registry) reuse) :
    Gives (Fitting registry (.union branches)) (decodeWith settings record (.union branches) reuse) := by
  rw [decodeWith]
  refine (Gives.any _).bind fun start _ => (Gives.any _).bind fun branch _ => ?_
  cases nullable : Schema.nullPosition? branches with
  | some position =>
    intro c value c' run
    obtain ⟨⟨type, found, fits⟩, typed⟩ := decodeBranch_gives each _ branch inPlace c value c' run
    exact ⟨conforms_of_nullable nullable found fits, typed⟩
  | none =>
    have inside := inPlace.branch (fun _ _ part_of typed => Value.Every.part typed part_of) branch
    refine (decodeBranch_gives each _ branch inside).map ?_
    rintro value ⟨⟨type, found, fits⟩, typed⟩
    exact ⟨(Value.conforms_tagged nullable).mpr ⟨branch, value, type, rfl, found, fits⟩,
      Value.every_union.mpr typed⟩

theorem decodeWith_gives
    (nested : ∀ type reuse, InPlace (Value.Typed registry) reuse →
      Gives (Fitting registry (.record type)) (record type reuse))
    (schema : Schema) {reuse : Option Value} (inPlace : InPlace (Value.Typed registry) reuse) :
    Gives (Fitting registry schema) (decodeWith settings record schema reuse) := by
  induction schema using Schema.induction generalizing reuse with
  | primitive kind =>
    rw [decodeWith]
    exact decodePrimitive_gives kind
  | enum e =>
    rw [decodeWith]
    exact decodeEnum_gives e
  | fixed f =>
    rw [decodeWith]
    exact decodeFixed_gives f
  | record type =>
    rw [decodeWith]
    exact nested type reuse inPlace
  | array element ih =>
    have previous := inPlace.items fun _ _ part_of typed => Value.Every.part typed part_of
    rw [decodeWith]
    refine (Gives.any _).bind fun count _ => ?_
    refine (decodeItems_gives (fun _ => ih) count 0 previous (List.forall_mem_nil _)).map fun items each => ?_
    exact ⟨Value.conforms_array.mpr ⟨items, rfl, fun item inside => (each item inside).1⟩,
      Value.every_array.mpr fun item inside => (each item inside).2⟩
  | map schema ih =>
    have previous := inPlace.entries fun _ _ part_of typed => Value.Every.part typed part_of
    rw [decodeWith]
    refine Gives.map (Gives.bind (Gives.any _) fun count _ =>
      decodeEntries_gives (fun _ => ih) previous count (List.forall_mem_nil _)) fun m each => ?_
    exact ⟨Value.conforms_map.mpr ⟨m, rfl, fun entry inside => (each entry inside).1⟩,
      Value.every_map.mpr fun entry inside => (each entry inside).2⟩
  | union branches ih => exact decodeUnion_gives ih inPlace

end

/-! ### Nested records -/

/-- Every maker of instances gives typed ones. -/
theorem targetOf_typed {compiled : CompiledRecord} {reuse : Option Value}
    (known : registry.get? compiled.layout.fullName = some compiled.layout)
    (fresh : (compiled.fresh compiled.layout).layout = compiled.layout ∧
      (Value.record (compiled.fresh compiled.layout)).Typed registry)
    (inPlace : InPlace (Value.Typed registry) reuse) :
    (targetOf compiled reuse).layout = compiled.layout ∧
      (Value.record (targetOf compiled reuse)).Typed registry := by
  unfold targetOf
  split
  · rename_i r
    split
    · rename_i named
      have typed := inPlace _ rfl
      have layout := (Value.every_record.mp typed).1.shaped.layout
      rw [named, known] at layout
      exact ⟨(Option.some.inj layout).symm, typed⟩
    · exact fresh
  · exact fresh

theorem refill_gives {decode : Schema → Option Value → Decoder Value}
    (each : ∀ schema reuse, InPlace (Value.Typed registry) reuse →
      Gives (Fitting registry schema) (decode schema reuse))
    {target : Record Value} (typed : (Value.record target).Typed registry) :
    Gives (fun r => r.layout = target.layout ∧ (Value.record r).Typed registry) (refill decode target) := by
  obtain ⟨self, slots⟩ := Value.every_record.mp typed
  refine (decodeFields_gives each target.layout.name target.layout.fields slots).map ?_
  rintro values ⟨length, fitting⟩
  have all := (FieldBits.new_wellFormed target.layout.fieldCount).setAll
  have shaped : Record.Shaped registry
      ⟨target.layout, values, FieldBits.new target.layout.fieldCount, target.layout.selectAll⟩ :=
    ⟨self.shaped.layout, length, FieldBits.new_wellFormed _, rfl, all.1, all.2⟩
  refine ⟨rfl, Record.typed_of_slots ⟨shaped, fun i field known => Or.inr (fitting i field known).1⟩ fun i => ?_⟩
  by_cases inside : i < target.layout.fields.length
  · exact (fitting i _ (List.getElem?_eq_getElem inside)).2
  · have outside : values.length ≤ i := length ▸ Nat.not_lt.mp inside
    rw [Record.slot_of_le outside]
    exact Value.every_null

theorem decodeNested_gives (makes : registry.MakesTyped) (maxDepth left : Nat) (type : RecordRef)
    {reuse : Option Value} (inPlace : InPlace (Value.Typed registry) reuse) :
    Gives (Fitting registry (.record type)) (decodeNested registry settings maxDepth left type reuse) := by
  induction left generalizing type reuse with
  | zero =>
    rw [decodeNested]
    exact (Gives.any _).bind fun _ _ => Gives.throw _
  | succ left ih =>
    rw [decodeNested]
    cases found : registry.record? type.fullName with
    | none => exact Gives.throw _
    | some compiled =>
      have named := Registry.fullName_of_record? found
      have known : registry.get? compiled.layout.fullName = some compiled.layout := by
        rw [named]
        exact Registry.get?_of_record? found
      obtain ⟨layout, typed⟩ := targetOf_typed known (makes _ _ found) inPlace
      have each (schema : Schema) (reuse : Option Value) (inPlace : InPlace (Value.Typed registry) reuse) :
          Gives (Fitting registry schema)
            (decodeWith settings (decodeNested registry settings maxDepth left) schema reuse) :=
        decodeWith_gives (fun type _ => ih type) schema inPlace
      refine (refill_gives each typed).map ?_
      rintro r ⟨same, typed⟩
      refine ⟨Value.conforms_record.mpr ⟨r, rfl, ?_⟩, typed⟩
      rw [← named, ← layout, ← same]
      rfl

/-- A value that is read conforms to its schema and is typed throughout. -/
theorem decode_gives (makes : registry.MakesTyped) (maxDepth : Nat) (schema : Schema) {reuse : Option Value}
    (inPlace : InPlace (Value.Typed registry) reuse) :
    Gives (Fitting registry schema) (decode registry settings maxDepth schema reuse) :=
  decodeWith_gives (fun type _ => decodeNested_gives makes maxDepth maxDepth type) schema inPlace

end TrackedRecord.Wire.Plain
