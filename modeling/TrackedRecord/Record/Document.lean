import TrackedRecord.Json.Writer
import TrackedRecord.Registry

/-!
# Records as JSON documents

A record is an object of its fields, an enum its symbol, a byte string the array of its bytes. A
nullable union is null or the plain value; a value of any other union stands under the name of its
branch's type, or is null in the null branch. A document describes writes: every entry of a map in it
is updated.
-/

namespace TrackedRecord

namespace Document

def refuse {α : Type} (path : String) (cause : Unfit) : Except RecordError α := .error (.unfit path cause)

/-- What is there, or the error for its lack. -/
def require {α : Type} (path : String) (cause : Unfit) : Option α → Except RecordError α
  | some a => .ok a
  | none => refuse path cause

def int32? (json : Json) : Option Int :=
  json.int64?.filter fun n => -0x80000000 ≤ n && n < 0x80000000

/-- The single-precision bits nearest to a number. -/
def single? (json : Json) : Option UInt32 :=
  json.double?.map fun bits => UInt32.ofNat (Decimal.double.convert Decimal.single bits.toNat)

def byte? (json : Json) : Option UInt8 :=
  (json.uint64?.filter fun n => n < 0x100).map UInt8.ofNat

def bytesOf (path : String) (json : Json) : Except RecordError (List UInt8) := do
  let items ← require path .notBytes json.array?
  require path .byteRange (items.mapM byte?)

def primitiveOf (path : String) (kind : Primitive) (json : Json) : Except RecordError Value :=
  let as {α : Type} (make : α → Value) (found : Option α) : Except RecordError Value :=
    (require path (.notPrimitive kind) found).map make
  match kind with
  | .null => as (fun _ => .null) (if json.isNull then some () else none)
  | .boolean => as .boolean json.bool?
  | .int => as (fun n => .int (Int32.ofInt n)) (int32? json)
  | .long => as (fun n => .long (Int64.ofInt n)) json.int64?
  | .float => as .float (single? json)
  | .double => as .double json.double?
  | .bytes => (bytesOf path json).map .bytes
  | .string => as .string json.string?

def enumOf (path : String) (e : EnumType) (json : Json) : Except RecordError Value := do
  let symbol ← require path .notSymbol json.string?
  let ordinal ← require path (.unknownSymbol symbol e.fullName) (e.ordinal? symbol)
  return .enum ordinal

def fixedOf (path : String) (f : FixedType) (json : Json) : Except RecordError Value := do
  let data ← bytesOf path json
  if data.length ≠ f.size then refuse path (.fixedSize f.fullName f.size data.length)
  return .fixed data

/-- The position and the schema of the first branch whose type has a name. -/
def branchNamed? (label : String) (branches : List Schema) : Option (Nat × Schema) :=
  (branches.zipIdx.find? fun (branch, _) => branch.typeName == label).map fun (branch, i) => (i, branch)

mutual

/-- The value of a schema that a JSON value stands for. -/
def valueOf (registry : Registry) (path : String) (schema : Schema) (json : Json) :
    Except RecordError Value :=
  if schema.nullableInner?.isSome && json.isNull then .ok .null
  else
    match schema.core, json with
    | .primitive kind, json => primitiveOf path kind json
    | .enum e, json => enumOf path e json
    | .fixed f, json => fixedOf path f json
    | .record type, .object members => do
      let compiled ← require path (.notCompiled type.fullName) (registry.record? type.fullName)
      let r ← setMembers registry compiled.layout (compiled.fresh compiled.layout) members
      return .record r.clearState
    | .record type, _ => do
      let _ ← require path (.notCompiled type.fullName) (registry.record? type.fullName)
      refuse type.fullName .notObject
    | .array element, .array items => do
      let values ← itemsOf registry path element 0 items
      return .array values
    | .array _, _ => refuse path .notArray
    | .map value, .object members => do
      let m ← putEntries registry path value StateMap.empty members
      return .map m
    | .map _, _ => refuse path .notMap
    | .union branches, .null => do
      let branch ← require path .noNullBranch (branches.findIdx? Schema.isNull)
      return .union branch .null
    | .union branches, .object [(label, inner)] =>
      match branchNamed? label branches with
      | some (branch, schema) => do
        let value ← valueOf registry path schema inner
        return .union branch value
      | none => refuse path (.unknownBranch label (Schema.union branches).display)
    | .union _, _ => refuse path .notLabelled

/-- Sets the fields that an object names. They are looked up in the layout of the type; the record is what a
maker made of it. -/
def setMembers (registry : Registry) (layout : Layout) (r : Record Value) :
    List (String × Json) → Except RecordError (Record Value)
  | [] => .ok r
  | (name, json) :: rest => do
    let index ← layout.indexOf name
    let field ← layout.fieldAt index
    let value ← valueOf registry (layout.name ++ "." ++ name) field.schema json
    let r ← r.set index value
    setMembers registry layout r rest

/-- The values of items, of which the first is number `i`. -/
def itemsOf (registry : Registry) (path : String) (element : Schema) (i : Nat) :
    List Json → Except RecordError (List Value)
  | [] => .ok []
  | json :: rest => do
    let value ← valueOf registry s!"{path}[{i}]" element json
    let values ← itemsOf registry path element (i + 1) rest
    return value :: values

/-- Puts the members of an object into a map. -/
def putEntries (registry : Registry) (path : String) (schema : Schema) (m : StateMap Value) :
    List (String × Json) → Except RecordError (StateMap Value)
  | [] => .ok m
  | (key, json) :: rest => do
    let value ← valueOf registry s!"{path}[{Text.quoted key}]" schema json
    putEntries registry path schema (m.put key value) rest

end

/-- The record of a compiled type whose fields an object names; they are dirty and readable. -/
def recordOf (registry : Registry) (compiled : CompiledRecord) (json : Json) :
    Except RecordError (Record Value) :=
  match json with
  | .object members => setMembers registry compiled.layout (compiled.fresh compiled.layout) members
  | _ => refuse compiled.layout.fullName .notObject

end Document

namespace Value

def bytesToJson (data : List UInt8) : Json := .array (data.map fun b => Json.nat b.toNat)

def widen (bits : UInt32) : UInt64 := UInt64.ofNat (Decimal.single.convert Decimal.double bits.toNat)

mutual

/-- The JSON value of a value; what is not of the schema becomes null. -/
def toJson (schema : Schema) : Value → Json
  | .null => .null
  | .boolean b => .bool b
  | .int n => Json.int n.toInt
  | .long n => Json.int n.toInt
  | .float bits => Json.ofDouble (widen bits)
  | .double bits => Json.ofDouble bits
  | .bytes data => bytesToJson data
  | .string s => .string s
  | .enum ordinal =>
    match schema.core with
    | .enum e => ((e.symbols[ordinal]?).map Json.string).getD .null
    | _ => .null
  | .fixed data => bytesToJson data
  | .record ⟨layout, slots, _, _⟩ => Json.ofMembers (fieldsToJson layout.fields slots)
  | .array items =>
    match schema.core with
    | .array element => .array (itemsToJson element items)
    | _ => .null
  | .map ⟨entries, _⟩ =>
    match schema.core with
    | .map value => Json.ofMembers (entriesToJson value entries)
    | _ => .null
  | .union branch value =>
    match schema.core with
    | .union branches =>
      match branches[branch]? with
      | some type => if type.isNull then .null else .object [(type.typeName, toJson type value)]
      | none => .null
    | _ => .null

/-- The slots under the names of their fields. -/
def fieldsToJson : List Field → List Value → List (String × Json)
  | field :: fields, value :: values => (field.name, toJson field.schema value) :: fieldsToJson fields values
  | _, _ => []

def itemsToJson (element : Schema) : List Value → List Json
  | [] => []
  | item :: rest => toJson element item :: itemsToJson element rest

def entriesToJson (schema : Schema) : List (String × Value) → List (String × Json)
  | [] => []
  | (key, value) :: rest => (key, toJson schema value) :: entriesToJson schema rest

end

end Value

namespace Record

def toJson (r : Record Value) : Json := Json.ofMembers (Value.fieldsToJson r.layout.fields r.slots)

def readableToJson (r : Record Value) : Json :=
  let shown := (r.layout.fields.zip r.slots).filter fun (field, _) => r.isReadable field.index
  Json.ofMembers (shown.map fun (field, value) => (field.name, value.toJson field.schema))

end Record

end TrackedRecord
