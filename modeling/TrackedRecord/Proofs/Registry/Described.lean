import TrackedRecord.Proofs.Registry.Layouts

/-!
# What layouts tell

A layout has the fields of a definition in their order, each found under its name. The shape of a field is that of
its schema once a union of null and one more type is left off.
-/

namespace TrackedRecord

namespace Schema

/-- A union of null and one more type, and that type. -/
inductive NullUnion : Schema → Schema → Prop where
  | nullFirst {inner : Schema} (other : inner.isNull = false) : NullUnion (.union [.primitive .null, inner]) inner
  | nullLast {inner : Schema} (other : inner.isNull = false) : NullUnion (.union [inner, .primitive .null]) inner

inductive HasKind : Schema → FieldKind → Prop where
  | primitive (kind : Primitive) : HasKind (.primitive kind) .scalar
  | enum (e : EnumType) : HasKind (.enum e) .scalar
  | fixed (f : FixedType) : HasKind (.fixed f) .scalar
  | record (r : RecordRef) : HasKind (.record r) .nested
  | array (element : Schema) : HasKind (.array element) .list
  | map (value : Schema) : HasKind (.map value) .map
  | union (branches : List Schema) : HasKind (.union branches) .union

theorem nullableInner?_iff {schema inner : Schema} : schema.nullableInner? = some inner ↔ schema.NullUnion inner := by
  constructor
  · intro known
    unfold nullableInner? at known
    split at known
    · rename_i a b
      split at known
      · rename_i null other
        cases known
        rw [eq_null null]
        exact .nullFirst other
      · rename_i other null
        cases known
        rw [eq_null null]
        exact .nullLast other
      · cases known
    · cases known
  · rintro (other | other)
    · rw [nullableInner?, other]
      rfl
    · rw [nullableInner?, other]
      rfl

end Schema

/-! ### Fields -/

/-- A field at its place, as it is declared, with the shape of its schema without a null union. -/
structure Field.Describes (field : Field) (index : Nat) (type : FieldType) : Prop where
  name : field.name = type.name
  index : field.index = index
  schema : field.schema = type.schema
  nullable : ∀ {inner}, type.schema.NullUnion inner → field.isNullable = true ∧ field.valueSchema = inner
  plain : (∀ inner, ¬type.schema.NullUnion inner) → field.isNullable = false ∧ field.valueSchema = type.schema
  kind : field.valueSchema.HasKind field.kind
  element : ∀ {element}, field.element? = some element ↔ field.valueSchema = .array element
  mapValue : ∀ {value}, field.mapValue? = some value ↔ field.valueSchema = .map value

theorem Field.describes (type : FieldType) (index : Nat) :
    Field.Describes ⟨type.name, index, type.schema⟩ index type where
  name := rfl
  index := rfl
  schema := rfl
  nullable {inner} union := by
    rw [isNullable, valueSchema, Schema.nullableInner?_iff.mpr union]
    exact ⟨rfl, rfl⟩
  plain noUnion := by
    have absent : type.schema.nullableInner? = none := by
      rw [Option.eq_none_iff_forall_ne_some]
      exact fun inner known => noUnion inner (Schema.nullableInner?_iff.mp known)
    rw [isNullable, valueSchema, absent]
    exact ⟨rfl, rfl⟩
  kind := by
    unfold kind
    generalize valueSchema _ = schema
    cases schema <;> constructor
  element {element} := by
    unfold element?
    generalize valueSchema _ = schema
    cases schema <;> simp
  mapValue {value} := by
    unfold mapValue?
    generalize valueSchema _ = schema
    cases schema <;> simp

/-! ### Layouts -/

/-- A layout of a record type with some declared fields. -/
structure Layout.Describes (layout : Layout) (r : RecordRef) (fields : List FieldType) : Prop where
  fullName : layout.fullName = r.fullName
  name : layout.name = r.name
  count : layout.fieldCount = fields.length
  field : ∀ {i type}, fields[i]? = some type → ∃ field, layout.field? i = some field ∧ field.Describes i type
  indexOf : ∀ {name i}, layout.indexOf? name = some i ↔ ∃ type, fields[i]? = some type ∧ type.name = name

theorem Layout.findIdx?_fieldsOf (fields : List FieldType) (name : String) :
    ((fieldsOf fields).findIdx? fun field => field.name == name) = fields.findIdx? fun type => type.name == name := by
  have declared := List.findIdx?_map (f := Field.declared) (l := fieldsOf fields) (p := fun type => type.name == name)
  rw [fieldsOf_declared] at declared
  exact declared.symm

theorem Layout.describes {r : RecordRef} {fields : List FieldType} {doc : Option String}
    (distinct : (fields.map FieldType.name).Nodup) :
    Layout.Describes ⟨r.fullName, r.name, doc, fieldsOf fields⟩ r fields where
  fullName := rfl
  name := rfl
  count := by
    rw [fieldCount, fieldsOf, List.length_map, List.length_zipIdx]
  field {i type} known := by
    refine ⟨_, ?_, Field.describes type i⟩
    rw [field?, getElem?_fieldsOf, known]
    rfl
  indexOf {name i} := by
    rw [indexOf?, findIdx?_fieldsOf]
    constructor
    · intro found
      obtain ⟨inside, same, _⟩ := List.findIdx?_eq_some_iff_getElem.mp found
      exact ⟨_, List.getElem?_eq_getElem inside, eq_of_beq same⟩
    · rintro ⟨type, known, rfl⟩
      exact Keyed.findIdx?_key distinct known

end TrackedRecord
