import TrackedRecord.Json.Basic
import TrackedRecord.Text.Hex
import TrackedRecord.Value.Basic

/-!
# Snapshots

A JSON form of values that leaves nothing out: every value stands under the name of its kind, byte
strings and the bits of floating-point numbers in hexadecimal, maps with their entry states and records
with their dirty and readable fields. No schema is needed to read it.
-/

namespace TrackedRecord

/-- One pair in an array of two. -/
def StateMap.pairSnapshot (key : String) (json : Json) : Json := .array [.string key, json]

def StateMap.stateSnapshots (states : List (String × EntryState)) : Json :=
  .array (states.map fun (key, state) => pairSnapshot key (.string state.name))

def FieldBits.onesSnapshot (bits : FieldBits) : Json := .array (bits.ones.map Json.nat)

namespace Value

/-- A JSON value under the name of a kind. -/
def tagged (kind : String) (json : Json) : Json := Json.ofMembers [(kind, json)]

def bytesSnapshot (data : List UInt8) : Json := .string (Text.hexBytes data)

mutual

def snapshot : Value → Json
  | .null => .null
  | .boolean b => tagged "boolean" (.bool b)
  | .int n => tagged "int" (Json.int n.toInt)
  | .long n => tagged "long" (.string (toString n.toInt))
  | .float bits => tagged "float" (.string (Text.hex 8 bits.toNat))
  | .double bits => tagged "double" (.string (Text.hex 16 bits.toNat))
  | .bytes data => tagged "bytes" (bytesSnapshot data)
  | .string s => tagged "string" (.string s)
  | .enum ordinal => tagged "enum" (Json.nat ordinal)
  | .fixed data => tagged "fixed" (bytesSnapshot data)
  | .record ⟨layout, slots, dirty, readable⟩ =>
    tagged "record" (Json.ofMembers [("type", .string layout.fullName), ("slots", .array (snapshots slots)),
      ("dirty", dirty.onesSnapshot), ("readable", readable.onesSnapshot)])
  | .array items => tagged "array" (.array (snapshots items))
  | .map ⟨entries, states⟩ =>
    tagged "map" (Json.ofMembers [("entries", .array (entrySnapshots entries)),
      ("states", StateMap.stateSnapshots states)])
  | .union branch value => tagged "union" (.array [Json.nat branch, snapshot value])

def snapshots : List Value → List Json
  | [] => []
  | value :: rest => snapshot value :: snapshots rest

def entrySnapshots : List (String × Value) → List Json
  | [] => []
  | (key, value) :: rest => StateMap.pairSnapshot key (snapshot value) :: entrySnapshots rest

end

end Value

def StateMap.snapshot (m : StateMap Value) : Json :=
  Json.ofMembers [("entries", .array (Value.entrySnapshots m.entries)), ("states", stateSnapshots m.states)]

def Record.snapshot (r : Record Value) : Json :=
  Json.ofMembers [("type", .string r.typeName), ("slots", .array (Value.snapshots r.slots)),
    ("dirty", r.dirty.onesSnapshot), ("readable", r.readable.onesSnapshot)]

end TrackedRecord
