import Mathlib.Data.List.Nodup
import TrackedRecord.Proofs.Keyed
import TrackedRecord.Schema.Catalog

/-!
# Catalogs that programs make

A catalog comes of declaring records and giving them fields, one record after the other. Whatever the calls were,
the fields of each record have distinct names, and their positions are those of the declaration.
-/

namespace TrackedRecord

/-! ### Fields -/

theorem FieldSchema.numbered_types (fields : List FieldType) :
    (numbered fields).map toFieldType = fields := by
  rw [numbered, List.map_map]
  exact List.zipIdx_map_fst 0 fields

theorem FieldSchema.getElem?_numbered (fields : List FieldType) (i : Nat) :
    (numbered fields)[i]? = fields[i]?.map fun field => ⟨field, i⟩ := by
  rw [numbered, List.getElem?_map, List.getElem?_zipIdx, Option.map_map, Nat.zero_add]
  rfl

/-- No name is repeated exactly if the names are distinct and none of them came before. -/
theorem FieldType.firstRepeated_none {before : List String} {fields : List FieldType} :
    FieldType.firstRepeated before fields = none ↔
      (fields.map FieldType.name).Nodup ∧ ∀ name ∈ fields.map FieldType.name, name ∉ before := by
  induction fields generalizing before with
  | nil => exact iff_of_true rfl ⟨List.nodup_nil, List.forall_mem_nil _⟩
  | cons field rest ih =>
    rw [FieldType.firstRepeated, List.map_cons]
    by_cases known : field.name ∈ before
    · rw [if_pos (List.contains_iff_mem.mpr known)]
      exact iff_of_false nofun fun apart => apart.2 _ List.mem_cons_self known
    · rw [if_neg (mt List.contains_iff_mem.mp known), ih]
      refine ⟨Keyed.distinct_cons known, fun ⟨distinct, fresh⟩ => ?_⟩
      obtain ⟨first, others⟩ := List.nodup_cons.mp distinct
      refine ⟨others, fun name member earlier => ?_⟩
      rcases List.mem_cons.mp earlier with rfl | before
      · exact first member
      · exact fresh name (List.mem_cons_of_mem _ member) before

theorem FieldType.firstRepeated_nil {fields : List FieldType} :
    FieldType.firstRepeated [] fields = none ↔ (fields.map FieldType.name).Nodup := by
  rw [firstRepeated_none]
  exact and_iff_left fun _ _ => List.not_mem_nil

theorem RecordType.types?_numbered (record : RecordType) (fields : List FieldType) :
    types? { record with fields := some (FieldSchema.numbered fields) } = some fields :=
  congrArg some (FieldSchema.numbered_types fields)

namespace Catalog

variable {catalog catalog' : Catalog} {r : RecordRef} {types : List FieldType}

theorem fields?_eq (catalog : Catalog) (r : RecordRef) :
    catalog.fields? r = (catalog.fieldSchemas? r).map (·.map FieldSchema.toFieldType) := by
  rw [fields?, fieldSchemas?]
  cases catalog.record? r <;> rfl

/-! ### Giving fields -/

theorem define_distinct (defined : catalog.define r types = .ok catalog') : (types.map FieldType.name).Nodup := by
  unfold define at defined
  split at defined
  · cases defined
  · rename_i none
    exact FieldType.firstRepeated_nil.mp none

/-- A record without fields gets any whose names are distinct. -/
theorem define_of_distinct (undefined : catalog.isDefined r = false) (distinct : (types.map FieldType.name).Nodup) :
    ∃ catalog', catalog.define r types = .ok catalog' := by
  unfold define
  rw [FieldType.firstRepeated_nil.mpr distinct]
  simp [undefined]

/-- Every record is as it was but for the fields of the one that got them. -/
theorem define_ok (defined : catalog.define r types = .ok catalog') (other : RecordRef) :
    catalog'.record? other = (catalog.record? other).map fun type =>
      if r.place = other.place then { type with fields := some (FieldSchema.numbered types) } else type := by
  unfold define at defined
  split at defined
  · cases defined
  · split at defined
    · cases defined
    · cases defined
      exact List.getElem?_modify ..

theorem define_fieldSchemas (defined : catalog.define r types = .ok catalog') {other : RecordRef}
    {stored : List FieldSchema} (known : catalog'.fieldSchemas? other = some stored) :
    stored = FieldSchema.numbered types ∨ catalog.fieldSchemas? other = some stored := by
  obtain ⟨type, found, given⟩ := Option.bind_eq_some_iff.mp known
  rw [define_ok defined] at found
  obtain ⟨old, before, rfl⟩ := Option.map_eq_some_iff.mp found
  split at given
  · exact Or.inl (Option.some.inj given).symm
  · rw [fieldSchemas?, before]
    exact Or.inr given

theorem define_fields (defined : catalog.define r types = .ok catalog') {other : RecordRef}
    {types' : List FieldType} (known : catalog'.fields? other = some types') :
    types' = types ∨ catalog.fields? other = some types' := by
  rw [fields?_eq] at known ⊢
  obtain ⟨stored, found, rfl⟩ := Option.map_eq_some_iff.mp known
  rcases define_fieldSchemas defined found with rfl | before
  · exact Or.inl (FieldSchema.numbered_types types)
  · exact Or.inr (congrArg _ before)

/-! ### Declaring -/

/-- One catalog has all records of another, and what it has beyond them has no fields. -/
structure Extends (catalog catalog' : Catalog) : Prop where
  kept : ∀ {r type}, catalog.record? r = some type → catalog'.record? r = some type
  fieldSchemas : ∀ {r stored}, catalog'.fieldSchemas? r = some stored → catalog.fieldSchemas? r = some stored

theorem Extends.fields (grows : catalog.Extends catalog') (known : catalog'.fields? r = some types) :
    catalog.fields? r = some types := by
  rw [fields?_eq] at known ⊢
  obtain ⟨stored, found, rfl⟩ := Option.map_eq_some_iff.mp known
  exact congrArg _ (grows.fieldSchemas found)

theorem Extends.fields?_eq {type : RecordType} (grows : catalog.Extends catalog')
    (known : catalog.record? r = some type) : catalog'.fields? r = catalog.fields? r := by
  rw [Catalog.fields?, Catalog.fields?, grows.kept known, known]

theorem declare_extends (catalog : Catalog) (name : String) (scope doc : Option String) :
    catalog.Extends (catalog.declare name scope doc).2 where
  kept {r type} known := by
    obtain ⟨inside, _⟩ := List.getElem?_eq_some_iff.mp known
    exact (List.getElem?_append_left inside).trans known
  fieldSchemas {r stored} known := by
    obtain ⟨type, found, defined⟩ := Option.bind_eq_some_iff.mp known
    rcases Nat.lt_or_ge r.place catalog.records.length with inside | beyond
    · have old : catalog.record? r = some type := (List.getElem?_append_left inside).symm.trans found
      rw [fieldSchemas?, old]
      exact defined
    · have new := (List.getElem?_append_right beyond).symm.trans found
      obtain rfl := List.mem_singleton.mp (List.mem_of_getElem? new)
      cases defined

/-! ### After any calls -/

/-- A catalog that comes of declaring records and giving them fields. -/
inductive Made : Catalog → Prop where
  | empty : Made {}
  | declare {catalog : Catalog} (made : Made catalog) (name : String) (scope doc : Option String) :
    Made (catalog.declare name scope doc).2
  | define {catalog catalog' : Catalog} {r : RecordRef} {types : List FieldType} (made : Made catalog)
    (defined : catalog.define r types = .ok catalog') : Made catalog'

/-- The fields of a record are those of a declaration with distinct names, numbered in its order. -/
theorem Made.numbered (made : catalog.Made) {stored : List FieldSchema}
    (known : catalog.fieldSchemas? r = some stored) :
    ∃ types : List FieldType, (types.map FieldType.name).Nodup ∧ stored = FieldSchema.numbered types := by
  induction made with
  | empty => cases known
  | @declare catalog _ name scope doc ih => exact ih ((catalog.declare_extends name scope doc).fieldSchemas known)
  | define _ defined ih =>
    rcases define_fieldSchemas defined known with rfl | before
    · exact ⟨_, define_distinct defined, rfl⟩
    · exact ih before

theorem Made.distinct (made : catalog.Made) (known : catalog.fields? r = some types) :
    (types.map FieldType.name).Nodup := by
  rw [fields?_eq] at known
  obtain ⟨stored, found, rfl⟩ := Option.map_eq_some_iff.mp known
  obtain ⟨declared, distinct, rfl⟩ := made.numbered found
  rwa [FieldSchema.numbered_types]

theorem Made.position (made : catalog.Made) {stored : List FieldSchema}
    (known : catalog.fieldSchemas? r = some stored) {i : Nat} {field : FieldSchema} (here : stored[i]? = some field) :
    field.position = i := by
  obtain ⟨declared, _, rfl⟩ := made.numbered known
  rw [FieldSchema.getElem?_numbered] at here
  obtain ⟨_, _, rfl⟩ := Option.map_eq_some_iff.mp here
  rfl

end Catalog

end TrackedRecord
