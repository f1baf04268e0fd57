import TrackedRecord.FieldBits
import TrackedRecord.Schema.Catalog
import TrackedRecord.Text.CamelCase

/-!
# Record layouts

The fixed order of a record type's fields, with what is known of each field before any value is.
-/

namespace TrackedRecord

/-- The shape of a field once a null union around it is left off. -/
inductive FieldKind where
  | scalar
  | nested
  | list
  | map
  | union
  deriving DecidableEq, Repr

def FieldKind.name : FieldKind → String
  | .scalar => "scalar"
  | .nested => "nested"
  | .list => "list"
  | .map => "map"
  | .union => "union"

/-- The ways to reach a field in generated source. -/
inductive Accessor where
  | get
  | set
  | append
  | getEntry
  | putEntry
  | removeEntry
  deriving DecidableEq, Repr

def Accessor.name : Accessor → String
  | .get => "get"
  | .set => "set"
  | .append => "append"
  | .getEntry => "get_entry"
  | .putEntry => "put_entry"
  | .removeEntry => "remove_entry"

/-- A field at its place in a layout; values of the field conform to its schema. -/
structure Field where
  name : String
  index : Nat
  schema : Schema

namespace Field

def constant (field : Field) : String := Text.constantName field.name

def isNullable (field : Field) : Bool := field.schema.nullableInner?.isSome

def valueSchema (field : Field) : Schema := field.schema.nullableInner?.getD field.schema

def kind (field : Field) : FieldKind :=
  match field.valueSchema with
  | .array _ => .list
  | .map _ => .map
  | .record _ => .nested
  | .union _ => .union
  | _ => .scalar

def element? (field : Field) : Option Schema :=
  match field.valueSchema with
  | .array element => some element
  | _ => none

def mapValue? (field : Field) : Option Schema :=
  match field.valueSchema with
  | .map value => some value
  | _ => none

def accessors (field : Field) : List Accessor :=
  match field.kind with
  | .scalar | .nested | .union => [.get, .set]
  | .list => [.get, .set, .append]
  | .map => [.get, .set, .getEntry, .putEntry, .removeEntry]

end Field

structure Layout where
  fullName : String
  name : String
  doc : Option String
  fields : List Field

namespace Layout

/-- Fields numbered in the order of their declaration. -/
def fieldsOf (fields : List FieldType) : List Field :=
  fields.zipIdx.map fun (field, index) => ⟨field.name, index, field.schema⟩

/-- The layout of a record that is defined, with names that stand for one field each. -/
def of (catalog : Catalog) (r : RecordRef) : Except SchemaError Layout :=
  match catalog.fields? r with
  | none => .error ⟨r.fullName, .neverDefined⟩
  | some fields =>
    match FieldType.firstRepeated [] fields with
    | some name => .error ⟨r.fullName, .duplicateField name⟩
    | none => .ok ⟨r.fullName, r.name, catalog.doc? r, fieldsOf fields⟩

def fieldCount (layout : Layout) : Nat := layout.fields.length

def field? (layout : Layout) (index : Nat) : Option Field := layout.fields[index]?

def indexOf? (layout : Layout) (name : String) : Option Nat :=
  layout.fields.findIdx? fun field => field.name == name

def fieldByName? (layout : Layout) (name : String) : Option Field :=
  layout.fields.find? fun field => field.name == name

def selectAll (layout : Layout) : FieldBits := (FieldBits.new layout.fieldCount).setAll

end Layout

end TrackedRecord
