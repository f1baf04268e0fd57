import TrackedRecord.Record.Basic

/-!
# Registries of compiled types

Every record, enum and fixed type that can be reached from some root schemas, in the order of a
breadth-first search: first the named types of the roots, then those of each record's fields in turn.
-/

namespace TrackedRecord

/-- A compiled record type and the maker of its instances. -/
structure CompiledRecord where
  type : RecordRef
  layout : Layout
  fresh : Layout → Record Value := Record.empty

structure Registry where
  records : List CompiledRecord := []
  enums : List EnumType := []
  fixed : List FixedType := []

namespace Registry

def record? (registry : Registry) (fullName : String) : Option CompiledRecord :=
  registry.records.find? fun record => record.layout.fullName == fullName

def get? (registry : Registry) (fullName : String) : Option Layout :=
  (registry.record? fullName).map CompiledRecord.layout

/-- The record, enum or fixed type of a name. -/
def schema? (registry : Registry) (fullName : String) : Option Schema :=
  let record := (registry.record? fullName).map fun record => Schema.record record.type
  let enum := (registry.enums.find? fun e => e.fullName == fullName).map Schema.enum
  let fixed := (registry.fixed.find? fun f => f.fullName == fullName).map Schema.fixed
  record.or (enum.or fixed)

def newInstance? (registry : Registry) (fullName : String) : Option (Record Value) :=
  (registry.record? fullName).map fun record => record.fresh record.layout

def sibling (registry : Registry) (r : Record Value) : Record Value :=
  (registry.newInstance? r.typeName).getD (Record.empty r.layout)

/-- Replaces the maker of a record type's instances; also tells whether the type is there. -/
def setFactory (registry : Registry) (fullName : String) (fresh : Layout → Record Value) :
    Bool × Registry :=
  let replace (record : CompiledRecord) : CompiledRecord :=
    if record.layout.fullName == fullName then { record with fresh } else record
  ((registry.record? fullName).isSome, { registry with records := registry.records.map replace })

/-! ### Compiling -/

mutual

/-- The named types that stand in a schema, from left to right. No union may stand right inside
another. -/
def mentions (context : String) : Schema → Except SchemaError (List Schema)
  | .primitive _ => .ok []
  | .enum e => .ok [.enum e]
  | .fixed f => .ok [.fixed f]
  | .record r => .ok [.record r]
  | .array element => mentions context element
  | .map value => mentions context value
  | .union branches => branchMentions context branches

def branchMentions (context : String) : List Schema → Except SchemaError (List Schema)
  | [] => .ok []
  | branch :: rest => do
    if branch.isUnion then throw ⟨context, .unsupported "union nested in union"⟩
    let first ← mentions context branch
    let others ← branchMentions context rest
    return first ++ others

end

/-- The named types of a record's fields. -/
def fieldMentions (fullName : String) : List FieldType → Except SchemaError (List Schema)
  | [] => .ok []
  | field :: rest => do
    let first ← mentions (fullName ++ "." ++ field.name) field.schema
    let others ← fieldMentions fullName rest
    return first ++ others

/-- The names that were found and, of their types, those that are still to be compiled. -/
structure Search where
  found : List String := []
  queue : List Schema := []

/-- Puts a type that was not found before at the end of the queue. -/
def Search.add (search : Search) (schema : Schema) : Search :=
  if search.found.contains schema.typeName then search
  else ⟨schema.typeName :: search.found, search.queue ++ [schema]⟩

/-- Compiles up to `fuel` types of the queue and what they mention. -/
def compileQueue (catalog : Catalog) : Nat → Search → Registry → Except SchemaError Registry
  | 0, _, registry => .ok registry
  | fuel + 1, ⟨found, queue⟩, registry =>
    match queue with
    | [] => .ok registry
    | .record r :: queue => do
      let mentioned ← fieldMentions r.fullName (catalog.fields r)
      let layout ← Layout.of catalog r
      compileQueue catalog fuel (mentioned.foldl Search.add ⟨found, queue⟩)
        { registry with records := registry.records ++ [⟨r, layout, Record.empty⟩] }
    | .enum e :: queue =>
      compileQueue catalog fuel ⟨found, queue⟩ { registry with enums := registry.enums ++ [e] }
    | .fixed f :: queue =>
      compileQueue catalog fuel ⟨found, queue⟩ { registry with fixed := registry.fixed ++ [f] }
    | _ :: queue => compileQueue catalog fuel ⟨found, queue⟩ registry

def rootMentions : List Schema → Except SchemaError (List Schema)
  | [] => .ok []
  | root :: rest => do
    let first ← mentions "<root>" root
    let others ← rootMentions rest
    return first ++ others

mutual

/-- How many named types stand in a schema. -/
def mentionCount : Schema → Nat
  | .enum _ | .fixed _ | .record _ => 1
  | .array element => mentionCount element
  | .map value => mentionCount value
  | .union branches => mentionCountAll branches
  | .primitive _ => 0

def mentionCountAll : List Schema → Nat
  | [] => 0
  | branch :: rest => mentionCount branch + mentionCountAll rest

end

/-- No search finds more types than stand in the roots and in the fields of the catalog. -/
def searchBound (catalog : Catalog) (roots : List Schema) : Nat :=
  catalog.records.foldl
    (fun n record => n + mentionCountAll ((record.types?.getD []).map FieldType.schema)) (mentionCountAll roots)

/-- The registry of every type that the roots reach. -/
def compile (catalog : Catalog) (roots : List Schema) : Except SchemaError Registry := do
  let mentioned ← rootMentions roots
  compileQueue catalog (searchBound catalog roots) (mentioned.foldl Search.add {}) {}

end Registry

end TrackedRecord
