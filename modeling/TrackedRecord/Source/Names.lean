import TrackedRecord.Registry

/-!
# Names in generated source

Identifiers for types and for fields. A name that is taken gets the least number from 2 on that makes
it free.
-/

namespace TrackedRecord.Source

/-- `base` with the first number from `n` on that is not taken, of `tries` numbers. -/
def numberedName (base : String) (used : List String) : Nat → Nat → String
  | 0, n => s!"{base}{n}"
  | tries + 1, n => if used.contains s!"{base}{n}" then numberedName base used tries (n + 1) else s!"{base}{n}"

/-- `base`, with a number behind it if it is taken. As many numbers are tried as names are taken, of
which one is `base` itself, so a free one is among them. -/
def uniqueName (base : String) (used : List String) : String :=
  if used.contains base then numberedName base used used.length 2 else base

/-- A name for each base, none of them among the others or in `used`. -/
def uniqueNames (used : List String) : List String → List String
  | [] => []
  | base :: rest =>
    let name := uniqueName base used
    name :: uniqueNames (name :: used) rest

/-- The identifiers that a generated module imports. -/
def reservedNames : List String :=
  ["Arc", "Persistent", "Record", "RecordError", "RecordResult", "RecordTypeDescriptor", "Value"]

/-- The constants that every record has. -/
def reservedConstants : List String := ["TYPE_NAME", "FIELD_COUNT"]

/-- The bare names of all types: enums, then fixed types, then records. -/
def bareNames (registry : Registry) : List String :=
  registry.enums.map EnumType.name ++ registry.fixed.map FixedType.name ++
    registry.records.map fun record => record.layout.name

/-- The identifiers of all types, in the same order. -/
def typeNames (registry : Registry) : List String := uniqueNames reservedNames (bareNames registry)

/-- The constants of a record's fields. -/
def fieldConstants (layout : Layout) : List String :=
  uniqueNames reservedConstants (layout.fields.map Field.constant)

end TrackedRecord.Source
