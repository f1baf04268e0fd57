/-!
# Schemas

The types of values. Records may refer to themselves and to each other, so a schema names a record by
its place in a catalog of definitions instead of holding its fields.
-/

namespace TrackedRecord

inductive Primitive where
  | null
  | boolean
  | int
  | long
  | float
  | double
  | bytes
  | string
  deriving DecidableEq, Repr

namespace Primitive

def name : Primitive → String
  | .null => "null"
  | .boolean => "boolean"
  | .int => "int"
  | .long => "long"
  | .float => "float"
  | .double => "double"
  | .bytes => "bytes"
  | .string => "string"

def all : List Primitive := [.null, .boolean, .int, .long, .float, .double, .bytes, .string]

def ofName? (name : String) : Option Primitive := all.find? fun kind => kind.name == name

end Primitive

/-- A name within its namespace; an empty namespace is none. -/
def qualified (scope : Option String) (name : String) : String :=
  match scope with
  | some scope => if scope = "" then name else scope ++ "." ++ name
  | none => name

structure EnumType where
  name : String
  scope : Option String
  symbols : List String
  deriving DecidableEq, Repr

namespace EnumType

def fullName (e : EnumType) : String := qualified e.scope e.name

def ordinal? (e : EnumType) (symbol : String) : Option Nat := e.symbols.findIdx? (· == symbol)

end EnumType

structure FixedType where
  name : String
  scope : Option String
  size : Nat
  deriving DecidableEq, Repr

def FixedType.fullName (f : FixedType) : String := qualified f.scope f.name

/-- A record type, by its name and its place in the catalog. -/
structure RecordRef where
  name : String
  scope : Option String
  place : Nat
  deriving DecidableEq, Repr

def RecordRef.fullName (r : RecordRef) : String := qualified r.scope r.name

inductive Schema where
  | primitive (kind : Primitive)
  | enum (e : EnumType)
  | fixed (f : FixedType)
  | record (r : RecordRef)
  | array (element : Schema)
  | map (value : Schema)
  | union (branches : List Schema)

namespace Schema

def isNull : Schema → Bool
  | .primitive .null => true
  | _ => false

def isUnion : Schema → Bool
  | .union _ => true
  | _ => false

def isRecord : Schema → Bool
  | .record _ => true
  | _ => false

/-- The name in messages and in the labels of union branches; a named type has its full name. -/
def typeName : Schema → String
  | .primitive kind => kind.name
  | .enum e => e.fullName
  | .fixed f => f.fullName
  | .record r => r.fullName
  | .array _ => "array"
  | .map _ => "map"
  | .union _ => "union"

def kindName : Schema → String
  | .primitive _ => "primitive"
  | .enum _ => "enum"
  | .fixed _ => "fixed"
  | .record _ => "record"
  | .array _ => "array"
  | .map _ => "map"
  | .union _ => "union"

/-- The position of the null branch in a union of two branches of which one is null. -/
def nullPosition? : List Schema → Option Nat
  | [a, b] =>
    match a.isNull, b.isNull with
    | true, false => some 0
    | false, true => some 1
    | _, _ => none
  | _ => none

/-- The other branch of a union of null and one more type. -/
def nullableInner? : Schema → Option Schema
  | .union [a, b] =>
    match a.isNull, b.isNull with
    | true, false => some b
    | false, true => some a
    | _, _ => none
  | _ => none

mutual

def display : Schema → String
  | .array element => s!"array<{element.display}>"
  | .map value => s!"map<string,{value.display}>"
  | .union branches => "union[" ++ ",".intercalate (displayAll branches) ++ "]"
  | .primitive kind => kind.name
  | .enum e => e.fullName
  | .fixed f => f.fullName
  | .record r => r.fullName

def displayAll : List Schema → List String
  | [] => []
  | branch :: rest => branch.display :: displayAll rest

end

mutual

/-- Whether two schemas are the same type. Records are compared by full name alone. -/
def same : Schema → Schema → Bool
  | .primitive a, .primitive b => a == b
  | .enum a, .enum b => a == b
  | .fixed a, .fixed b => a == b
  | .record a, .record b => a.fullName == b.fullName
  | .array a, .array b => same a b
  | .map a, .map b => same a b
  | .union as, .union bs => sameAll as bs
  | _, _ => false

def sameAll : List Schema → List Schema → Bool
  | [], [] => true
  | a :: as, b :: bs => same a b && sameAll as bs
  | _, _ => false

end

/-- The schema without the null unions around it. -/
def core : Schema → Schema
  | .union [a, b] =>
    match a.isNull, b.isNull with
    | true, false => b.core
    | false, true => a.core
    | _, _ => .union [a, b]
  | schema => schema

def nullable (inner : Schema) : Schema := .union [.primitive .null, inner]

end Schema

end TrackedRecord
