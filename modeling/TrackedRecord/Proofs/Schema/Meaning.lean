import TrackedRecord.Proofs.Schema.Node

/-!
# The meaning of nodes

What a node stands for when it is said which type each name stands for. Nothing here depends on when a type
was declared: a name in a node means the same wherever the definition of its type stands.
-/

namespace TrackedRecord

namespace Schema

/-! ### Schemas without places -/

mutual

/-- The schema without the places that records were given in a catalog. -/
def unplaced : Schema → Schema
  | .primitive kind => .primitive kind
  | .enum e => .enum e
  | .fixed f => .fixed f
  | .record r => .record { r with place := 0 }
  | .array element => .array (unplaced element)
  | .map value => .map (unplaced value)
  | .union branches => .union (unplacedAll branches)

def unplacedAll : List Schema → List Schema
  | [] => []
  | branch :: rest => unplaced branch :: unplacedAll rest

end

theorem unplacedAll_eq (branches : List Schema) : unplacedAll branches = branches.map unplaced := by
  induction branches with
  | nil => rfl
  | cons branch rest ih => rw [unplacedAll, ih, List.map_cons]

@[simp]
theorem typeName_unplaced (schema : Schema) : schema.unplaced.typeName = schema.typeName := by
  cases schema <;> rfl

@[simp]
theorem isUnion_unplaced (schema : Schema) : schema.unplaced.isUnion = schema.isUnion := by
  cases schema <;> rfl

/-- A union of at least one type, none of them a union and no two with one name. -/
def unionOf? (types : List Schema) : Option Schema :=
  if types.isEmpty = false ∧ (∀ type ∈ types, type.isUnion = false) ∧ (types.map typeName).Nodup then
    some (.union types)
  else none

theorem unionOf?_unplaced (types : List Schema) :
    unionOf? (types.map unplaced) = (unionOf? types).map unplaced := by
  have labels : (types.map unplaced).map typeName = types.map typeName := by simp
  simp only [unionOf?, labels, List.isEmpty_map, List.forall_mem_map, isUnion_unplaced]
  split
  · rw [Option.map_some, unplaced, unplacedAll_eq]
  · rfl

end Schema

namespace FieldType

def unplaced (field : FieldType) : FieldType := { field with schema := field.schema.unplaced }

/-- Fields of which no two have one name. -/
def distinct? (fields : List FieldType) : Option (List FieldType) :=
  if (fields.map FieldType.name).Nodup then some fields else none

theorem distinct?_unplaced (fields : List FieldType) :
    distinct? (fields.map unplaced) = (distinct? fields).map (·.map unplaced) := by
  have names : (fields.map unplaced).map FieldType.name = fields.map FieldType.name := by
    rw [List.map_map]
    rfl
  simp only [distinct?, names]
  split <;> rfl

end FieldType

namespace Node

open Vocabulary (isName)

/-! ### References -/

/-- The type that a reference names: a primitive type by its name, any other by its full name. A name without
a point stands for a type in the namespace around it if there is one. -/
def refer (known : String → Option Schema) (scope : Option String) (reference : String) : Option Schema :=
  match Primitive.ofName? reference with
  | some kind => some (.primitive kind)
  | none =>
    if reference.contains '.' then known reference
    else (scope.bind fun scope => known (scope ++ "." ++ reference)).or (known reference)

/-- The type that is known by the full name of a definition. -/
def Head.type? (known : String → Option Schema) (scope : Option String) (head : Head) : Option Schema :=
  head.name.bind fun _ => known (head.names scope).2.2

mutual

/-- The schema of a node inside a namespace, if it has one. -/
def meaning (known : String → Option Schema) (scope : Option String) : Node → Option Schema
  | .name reference | .tagged reference => refer known scope reference
  | .union branches => (meaningAll known scope branches).bind Schema.unionOf?
  | .wrapped inner => meaning known scope inner
  | .record head _ none => head.type? known scope
  | .record head _ (some fields) =>
    (head.type? known scope).bind fun schema =>
      ((fieldTypes known (head.names scope).1 fields).bind FieldType.distinct?).map fun _ => schema
  | .enum head _ | .fixed head _ => head.type? known scope
  | .array (some items) => (meaning known scope items).map .array
  | .map (some values) => (meaning known scope values).map .map
  | .foreign _ | .untyped | .array none | .map none => none

def meaningAll (known : String → Option Schema) (scope : Option String) : List Node → Option (List Schema)
  | [] => some []
  | node :: rest =>
    (meaning known scope node).bind fun schema => (meaningAll known scope rest).map (schema :: ·)

/-- Fields with valid names, each of what its type means. -/
def fieldTypes (known : String → Option Schema) (scope : Option String) : List Field → Option (List FieldType)
  | [] => some []
  | ⟨true, some label, some type⟩ :: rest =>
    if isName label then
      (meaning known scope type).bind fun schema => (fieldTypes known scope rest).map (⟨label, schema⟩ :: ·)
    else none
  | _ :: _ => none

end

/-- Each of the nodes has a meaning by itself. -/
theorem meaningAll_eq_some {known : String → Option Schema} {scope : Option String} {nodes : List Node}
    {types : List Schema} :
    meaningAll known scope nodes = some types ↔ nodes.map (meaning known scope) = types.map some := by
  induction nodes generalizing types with
  | nil =>
    rw [meaningAll, List.map_nil, Option.some.injEq]
    exact ⟨fun same => same ▸ rfl, fun same => (List.map_eq_nil_iff.mp same.symm).symm⟩
  | cons node rest ih =>
    rw [meaningAll, List.map_cons, Option.bind_eq_some_iff]
    constructor
    · rintro ⟨schema, first, others⟩
      obtain ⟨schemas, found, rfl⟩ := Option.map_eq_some_iff.mp others
      rw [List.map_cons, first, ih.mp found]
    · intro same
      obtain ⟨schema, schemas, rfl, first, others⟩ := List.map_eq_cons_iff.mp same.symm
      exact ⟨schema, first.symm, Option.map_eq_some_iff.mpr ⟨schemas, ih.mpr others.symm, rfl⟩⟩

theorem meaningAll_eq_none {known : String → Option Schema} {scope : Option String} {nodes : List Node} :
    meaningAll known scope nodes = none ↔ ∃ node ∈ nodes, meaning known scope node = none := by
  induction nodes with
  | nil => simp [meaningAll]
  | cons node rest ih =>
    rw [meaningAll]
    cases first : meaning known scope node with
    | none => simp [first]
    | some schema => simp [first, ih]

/-! ### Meanings without places -/

section Unplaced

variable {known : String → Option Schema} {scope : Option String}

/-- The types that are known, without places. -/
def unplacedTypes (known : String → Option Schema) (full : String) : Option Schema :=
  (known full).map Schema.unplaced

theorem refer_unplaced {reference : String} :
    refer (unplacedTypes known) scope reference = (refer known scope reference).map Schema.unplaced := by
  unfold refer unplacedTypes
  cases Primitive.ofName? reference with
  | some kind => rfl
  | none =>
    dsimp only
    split
    · rfl
    · cases scope with
      | none => rfl
      | some inside => cases near : known (inside ++ "." ++ reference) <;> simp [near]

theorem meaningAll_unplaced {nodes : List Node}
    (each : ∀ node ∈ nodes, meaning (unplacedTypes known) scope node = (meaning known scope node).map Schema.unplaced) :
    meaningAll (unplacedTypes known) scope nodes = (meaningAll known scope nodes).map (·.map Schema.unplaced) := by
  induction nodes with
  | nil => rfl
  | cons node rest ih =>
    rw [List.forall_mem_cons] at each
    rw [meaningAll, meaningAll, each.1, ih each.2]
    cases meaning known scope node with
    | none => rfl
    | some schema => cases meaningAll known scope rest <;> rfl

theorem fieldTypes_unplaced {fields : List Field}
    (each : ∀ field ∈ fields, ∀ type, field.type = some type →
      meaning (unplacedTypes known) scope type = (meaning known scope type).map Schema.unplaced) :
    fieldTypes (unplacedTypes known) scope fields =
      (fieldTypes known scope fields).map (·.map FieldType.unplaced) := by
  induction fields with
  | nil => rfl
  | cons field rest ih =>
    rw [List.forall_mem_cons] at each
    match field with
    | ⟨true, some label, some type⟩ =>
      rw [fieldTypes, fieldTypes, each.1 type rfl, ih each.2]
      split
      · cases meaning known scope type with
        | none => rfl
        | some schema => cases fieldTypes known scope rest <;> rfl
      · rfl
    | ⟨false, _, _⟩ | ⟨true, none, _⟩ | ⟨true, some _, none⟩ => rfl

theorem Head.type?_unplaced {head : Head} :
    head.type? (unplacedTypes known) scope = (head.type? known scope).map Schema.unplaced := by
  unfold Head.type?
  cases head.name <;> rfl

theorem meaning_unplaced (node : Node) :
    meaning (unplacedTypes known) scope node = (meaning known scope node).map Schema.unplaced := by
  induction node using Node.induction generalizing scope with
  | name | tagged => exact refer_unplaced
  | union branches ih =>
    rw [meaning, meaning, meaningAll_unplaced fun branch member => ih branch member]
    cases meaningAll known scope branches with
    | none => rfl
    | some types => exact Schema.unionOf?_unplaced types
  | wrapped inner ih => exact ih
  | record head doc fields ih =>
    cases fields with
    | none => exact Head.type?_unplaced
    | some fields =>
      rw [meaning, meaning, fieldTypes_unplaced fun field member type given => ih fields rfl field member type given,
        Head.type?_unplaced]
      cases head.type? known scope with
      | none => rfl
      | some schema =>
        cases fieldTypes known (head.names scope).1 fields with
        | none => rfl
        | some types =>
          simp only [Option.map_some, Option.bind_some, FieldType.distinct?_unplaced]
          cases FieldType.distinct? types <;> rfl
  | enum | fixed => exact Head.type?_unplaced
  | array items ih =>
    cases items with
    | none => rfl
    | some items =>
      rw [meaning, meaning, ih items rfl]
      cases meaning known scope items <;> rfl
  | map values ih =>
    cases values with
    | none => rfl
    | some values =>
      rw [meaning, meaning, ih values rfl]
      cases meaning known scope values <;> rfl
  | foreign | untyped => rfl

theorem meaning_congr {known' : String → Option Schema} (same : unplacedTypes known = unplacedTypes known')
    (scope : Option String) (node : Node) :
    (node.meaning known scope).map Schema.unplaced = (node.meaning known' scope).map Schema.unplaced := by
  rw [← meaning_unplaced, same, meaning_unplaced]

end Unplaced

end Node

end TrackedRecord
