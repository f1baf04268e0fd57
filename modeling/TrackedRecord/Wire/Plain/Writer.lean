import TrackedRecord.Record.Basic
import TrackedRecord.Wire.Cursor

/-!
# Writing plain values

The encoding of a value by its schema alone, without the state of any record:

- null has no bytes; the other scalars have fixed widths, or their length in front;
- an enum is its ordinal and a fixed value its bytes;
- an array is the count of its elements and the elements, a map the count of its entries and each key
  with its value, in the order of the keys;
- a union is the position of the branch and the value of the branch;
- a record is all its fields in order.

Nested records may stand only so deep inside each other.
-/

namespace TrackedRecord.Wire.Plain

/-- The error of a value that has not the shape of its schema. -/
def shapeError (expected : String) (value : Value) : Error :=
  .valueMismatch (.shape expected value.kindName)

def encodePrimitive : Primitive → Value → Except Error (List UInt8)
  | .null, .null => .ok []
  | .boolean, .boolean b => .ok (encodeBoolean b)
  | .int, .int n => .ok (encodeInt32 n)
  | .long, .long n => .ok (encodeInt64 n)
  | .float, .float bits => .ok (encodeFloat32 bits)
  | .double, .double bits => .ok (encodeFloat64 bits)
  | .bytes, .bytes data => .ok (encodeByteString data)
  | .string, .string s => .ok (encodeText s)
  | kind, value => .error (shapeError kind.name value)

def encodeEnum (e : EnumType) : Value → Except Error (List UInt8)
  | .enum ordinal =>
    if ordinal < e.symbols.length then .ok (Varint.ofNat ordinal)
    else .error (.valueMismatch (.enumOrdinal ordinal e.fullName))
  | value => .error (shapeError e.fullName value)

def encodeFixed (f : FixedType) : Value → Except Error (List UInt8)
  | .fixed data =>
    if data.length = f.size then .ok data
    else .error (.valueMismatch (.fixedSize f.fullName f.size data.length))
  | value => .error (shapeError f.fullName value)

/-- The result with its error placed inside a field or an element. -/
def inside {α : Type} (segment : String) : Except Error α → Except Error α
  | .ok a => .ok a
  | .error e => .error (e.within segment)

/-- The elements from number `i` on. -/
def encodeItems (encode : Value → Except Error (List UInt8)) (i : Nat) :
    List Value → Except Error (List UInt8)
  | [] => .ok []
  | item :: rest => do
    let first ← inside s!"[{i}]" (encode item)
    let others ← encodeItems encode (i + 1) rest
    return first ++ others

def encodeEntries (encode : Value → Except Error (List UInt8)) :
    List (String × Value) → Except Error (List UInt8)
  | [] => .ok []
  | (key, value) :: rest => do
    let first ← inside s!"[{Text.quoted key}]" (encode value)
    let others ← encodeEntries encode rest
    return encodeText key ++ first ++ others

def encodeFields (encode : Schema → Value → Except Error (List UInt8)) (name : String) :
    List Field → List Value → Except Error (List UInt8)
  | field :: fields, value :: values => do
    let first ← inside s!"{name}.{field.name}" (encode field.schema value)
    let others ← encodeFields encode name fields values
    return first ++ others
  | _, _ => .ok []

mutual

/-- The encoding of a value whose nested records are written by `record`. -/
def encodeWith (record : RecordRef → Value → Except Error (List UInt8)) :
    Schema → Value → Except Error (List UInt8)
  | .primitive kind, value => encodePrimitive kind value
  | .enum e, value => encodeEnum e value
  | .fixed f, value => encodeFixed f value
  | .record r, value => record r value
  | .array element, value =>
    match value with
    | .array items => do
      let encoded ← encodeItems (encodeWith record element) 0 items
      return Varint.ofNat items.length ++ encoded
    | _ => .error (shapeError (Schema.array element).display value)
  | .map schema, value =>
    match value with
    | .map m => do
      let encoded ← encodeEntries (encodeWith record schema) m.entries
      return Varint.ofNat m.size ++ encoded
    | _ => .error (shapeError (Schema.map schema).display value)
  | .union branches, value =>
    match Schema.nullPosition? branches with
    | some position =>
      if value.isNull then .ok (Varint.ofNat position)
      else encodeBranch record branches (1 - position) (Schema.union branches).display (1 - position) value
    | none =>
      match value with
      | .union branch inner => encodeBranch record branches branch (Schema.union branches).display branch inner
      | _ => .error (shapeError (Schema.union branches).display value)

/-- The value of branch number `branch` of the union `schema`; its own branches are left but for the
first ones, and it is number `left` of the rest. -/
def encodeBranch (record : RecordRef → Value → Except Error (List UInt8)) :
    List Schema → Nat → String → Nat → Value → Except Error (List UInt8)
  | [], _, schema, branch, _ => .error (.valueMismatch (.unionBranch branch schema))
  | type :: _, 0, _, branch, value => do
    let encoded ← encodeWith record type value
    return Varint.ofNat branch ++ encoded
  | _ :: rest, left + 1, schema, branch, value => encodeBranch record rest left schema branch value

end

/-- The record that a value holds, if it is of the type. -/
def recordOf (type : RecordRef) : Value → Except Error (Record Value)
  | .record r =>
    if r.typeName = type.fullName then .ok r
    else .error (.valueMismatch (.recordType type.fullName r.typeName))
  | value => .error (shapeError type.fullName value)

/-- The encoding of a nested record below which `left - 1` more may nest. -/
def encodeNested (maxDepth : Nat) : Nat → RecordRef → Value → Except Error (List UInt8)
  | 0, type, value => do
    let _ ← recordOf type value
    throw (.valueMismatch (.nesting maxDepth))
  | left + 1, type, value => do
    let r ← recordOf type value
    encodeFields (encodeWith (encodeNested maxDepth left)) r.layout.name r.layout.fields r.slots

/-- The encoding of a value in which records nest up to `maxDepth` deep. -/
def encode (maxDepth : Nat) : Schema → Value → Except Error (List UInt8) :=
  encodeWith (encodeNested maxDepth maxDepth)

/-- All fields of a record, whatever its state. -/
def encodeRecord (maxDepth : Nat) (r : Record Value) : Except Error (List UInt8) :=
  encodeFields (encode maxDepth) r.layout.name r.layout.fields r.slots

end TrackedRecord.Wire.Plain
