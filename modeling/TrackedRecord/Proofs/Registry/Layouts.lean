import TrackedRecord.Proofs.Schema.Compiled

/-!
# Layouts of compiled records

The fields of a compiled record are those of a definition, in the order of their indices. What is parsed is
regular, and so is every layout that is compiled of it.
-/

namespace TrackedRecord

structure Layout.Regular (layout : Layout) : Prop where
  fields : FieldType.Regular (layout.fields.map Field.declared)
  index : ∀ {i field}, layout.field? i = some field → field.index = i

namespace Layout

variable {layout : Layout} {field : Field}

theorem Regular.names (regular : layout.Regular) : (layout.fields.map Field.name).Nodup := by
  have distinct := regular.fields.distinct
  rwa [List.map_map] at distinct

theorem Regular.schema (regular : layout.Regular) (member : field ∈ layout.fields) : field.schema.Regular :=
  (regular.fields.each field.declared (List.mem_map_of_mem member)).2

/-- A field is found under its name. -/
theorem Regular.indexOf?_name (regular : layout.Regular) {i : Nat} (known : layout.field? i = some field) :
    layout.indexOf? field.name = some i :=
  Keyed.findIdx?_key regular.names known

theorem getElem?_fieldsOf (fields : List FieldType) (i : Nat) :
    (fieldsOf fields)[i]? = fields[i]?.map fun type => ⟨type.name, i, type.schema⟩ := by
  rw [fieldsOf, List.getElem?_map, List.getElem?_zipIdx, Option.map_map, Nat.zero_add]
  rfl

end Layout

namespace Registry

/-- Layouts that are compiled of regular definitions. -/
theorem compile_regular {v : Vocabulary} (regular : v.Regular) {roots : List Schema} {registry : Registry}
    (compiled : compile v.catalog roots = .ok registry) {name : String} {layout : Layout}
    (known : registry.get? name = some layout) : layout.Regular := by
  obtain ⟨record, found, rfl⟩ := record?_of_get? known
  obtain ⟨made, _⟩ := compile_made compiled record (List.mem_of_find?_eq_some found)
  obtain ⟨fields, defined, _, same⟩ := layout_of_ok.mp made
  rw [same]
  constructor
  case fields =>
    rw [Layout.fieldsOf_declared]
    exact regular.fields defined
  case index =>
    intro i field found
    rw [Layout.field?, Layout.getElem?_fieldsOf] at found
    obtain ⟨type, _, rfl⟩ := Option.map_eq_some_iff.mp found
    rfl

end Registry

end TrackedRecord
