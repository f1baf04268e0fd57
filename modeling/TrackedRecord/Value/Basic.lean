import TrackedRecord.Layout
import TrackedRecord.StateMap

/-!
# Values

The values of fields. Floating-point numbers are kept by their bits. A record holds one slot for each
field of its layout and two bit sets over them: the fields that were touched, and the fields that may
be seen.
-/

namespace TrackedRecord

structure Record (α : Type) where
  layout : Layout
  slots : List α
  dirty : FieldBits
  readable : FieldBits

inductive Value where
  | null
  | boolean (b : Bool)
  | int (n : Int32)
  | long (n : Int64)
  | float (bits : UInt32)
  | double (bits : UInt64)
  | bytes (data : List UInt8)
  | string (s : String)
  | enum (ordinal : Nat)
  | fixed (data : List UInt8)
  | record (r : Record Value)
  | array (items : List Value)
  | map (m : StateMap Value)
  /-- A branch of a union that is more than null and one other type. -/
  | union (branch : Nat) (value : Value)

/-- The full name of the record's type. -/
def Record.typeName {α : Type} (r : Record α) : String := r.layout.fullName

namespace Value

def isNull : Value → Bool
  | .null => true
  | _ => false

def kindName : Value → String
  | .null => "null"
  | .boolean _ => "boolean"
  | .int _ => "int"
  | .long _ => "long"
  | .float _ => "float"
  | .double _ => "double"
  | .bytes _ => "bytes"
  | .string _ => "string"
  | .enum _ => "enum"
  | .fixed _ => "fixed"
  | .record _ => "record"
  | .array _ => "array"
  | .map _ => "map"
  | .union _ _ => "union"

def string? : Value → Option String
  | .string s => some s
  | _ => none

def int? : Value → Option Int32
  | .int n => some n
  | _ => none

def long? : Value → Option Int64
  | .long n => some n
  | _ => none

def boolean? : Value → Option Bool
  | .boolean b => some b
  | _ => none

def record? : Value → Option (Record Value)
  | .record r => some r
  | _ => none

def array? : Value → Option (List Value)
  | .array items => some items
  | _ => none

def map? : Value → Option (StateMap Value)
  | .map m => some m
  | _ => none

/-! ### Conformance -/

def isPrimitive : Primitive → Value → Bool
  | .null, .null => true
  | .boolean, .boolean _ => true
  | .int, .int _ => true
  | .long, .long _ => true
  | .float, .float _ => true
  | .double, .double _ => true
  | .bytes, .bytes _ => true
  | .string, .string _ => true
  | _, _ => false

mutual

/-- Whether the value has the shape of the schema. A nested record is known by its type name; its
slots were checked when they were set. -/
def conforms : Schema → Value → Bool
  | .primitive kind, value => isPrimitive kind value
  | .enum e, .enum ordinal => ordinal < e.symbols.length
  | .fixed f, .fixed data => data.length == f.size
  | .record type, .record r => r.typeName == type.fullName
  | .array element, .array items => items.all (conforms element)
  | .map schema, .map m => m.entries.all fun entry => conforms schema entry.2
  | .union branches, value =>
    match Schema.nullPosition? branches with
    | some position => value.isNull || conformsBranch branches (1 - position) value
    | none =>
      match value with
      | .union branch inner => conformsBranch branches branch inner
      | _ => false
  | _, _ => false

/-- Whether the value has the shape of the branch at a position. -/
def conformsBranch : List Schema → Nat → Value → Bool
  | [], _, _ => false
  | schema :: _, 0, value => conforms schema value
  | _ :: rest, branch + 1, value => conformsBranch rest branch value

end

end Value

end TrackedRecord
