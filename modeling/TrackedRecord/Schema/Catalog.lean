import TrackedRecord.Schema.Error
import TrackedRecord.Text.Quoted

/-!
# The catalog of records

Records are declared first and get their fields once, later: a field list may refer to any declared
record, its own included.
-/

namespace TrackedRecord

/-- What a field is declared as. -/
structure FieldType where
  name : String
  schema : Schema

/-- A field of a record that is defined, with its place among them. -/
structure FieldSchema extends FieldType where
  position : Nat

/-- The fields of a declaration; positions follow its order. -/
def FieldSchema.numbered (fields : List FieldType) : List FieldSchema :=
  fields.zipIdx.map fun (field, position) => ⟨field, position⟩

/-- One declared record; its fields are missing until it is defined. -/
structure RecordType where
  name : String
  scope : Option String
  doc : Option String
  fields : Option (List FieldSchema)

/-- What the fields were declared as. -/
def RecordType.types? (record : RecordType) : Option (List FieldType) :=
  record.fields.map (·.map FieldSchema.toFieldType)

structure Catalog where
  records : List RecordType := []

/-- An enum with at least one symbol and no symbol twice. -/
def EnumType.new (name : String) (scope : Option String) (symbols : List String) :
    Except SchemaError EnumType :=
  let refuse (cause : SchemaError.Cause) : Except SchemaError EnumType := .error ⟨qualified scope name, cause⟩
  let rec firstRepeated : List String → List String → Option String
    | _, [] => none
    | before, symbol :: rest =>
      if before.contains symbol then some symbol else firstRepeated (symbol :: before) rest
  if symbols.isEmpty then refuse .emptyEnum
  else match firstRepeated [] symbols with
    | some symbol => refuse (.duplicateSymbol symbol)
    | none => .ok ⟨name, scope, symbols⟩

/-- The first field name that an earlier field has. -/
def FieldType.firstRepeated : List String → List FieldType → Option String
  | _, [] => none
  | before, field :: rest =>
    if before.contains field.name then some field.name else firstRepeated (field.name :: before) rest

namespace Catalog

def declare (catalog : Catalog) (name : String) (scope doc : Option String) : RecordRef × Catalog :=
  (⟨name, scope, catalog.records.length⟩, ⟨catalog.records ++ [⟨name, scope, doc, none⟩]⟩)

def record? (catalog : Catalog) (r : RecordRef) : Option RecordType := catalog.records[r.place]?

def fieldSchemas? (catalog : Catalog) (r : RecordRef) : Option (List FieldSchema) :=
  (catalog.record? r).bind RecordType.fields

def fields? (catalog : Catalog) (r : RecordRef) : Option (List FieldType) :=
  (catalog.record? r).bind RecordType.types?

def isDefined (catalog : Catalog) (r : RecordRef) : Bool := (catalog.fields? r).isSome

/-- The fields of a record; none for one that was never defined. -/
def fields (catalog : Catalog) (r : RecordRef) : List FieldType := (catalog.fields? r).getD []

/-- A record type as it is shown by itself: its name and the names of its fields. -/
def shown (catalog : Catalog) (r : RecordRef) : String :=
  let names := (catalog.fields r).map fun field => Text.quoted field.name
  "RecordSchema \x7b name: " ++ Text.quoted r.fullName ++ ", fields: [" ++ ", ".intercalate names ++ "] \x7d"

def doc? (catalog : Catalog) (r : RecordRef) : Option String := (catalog.record? r).bind RecordType.doc

/-- Gives a declared record its fields, once. -/
def define (catalog : Catalog) (r : RecordRef) (fields : List FieldType) : Except SchemaError Catalog :=
  match FieldType.firstRepeated [] fields with
  | some name => .error ⟨r.fullName, .duplicateField name⟩
  | none =>
    if catalog.isDefined r then .error ⟨r.fullName, .definedTwice⟩
    else
      let numbered := FieldSchema.numbered fields
      .ok ⟨catalog.records.modify r.place fun record => { record with fields := some numbered }⟩

end Catalog

end TrackedRecord
