import TrackedRecord.Registry
import TrackedRecord.Wire.Plain.Writer

/-!
# Reading plain values

The decoder for the plain encoding. It may be given the value that the new one takes the place of: a
record of the type is filled again, and the elements of an array, the entries of a map and the value of
a union's branch are decoded in place of those at the same position, key or branch.
-/

namespace TrackedRecord.Wire.Plain

def decodePrimitive (settings : Settings) : Primitive → Decoder Value
  | .null => return .null
  | .boolean => return .boolean (← Decoder.boolean)
  | .int => return .int (← Decoder.int32)
  | .long => return .long (← Decoder.int64)
  | .float => return .float (← Decoder.float32)
  | .double => return .double (← Decoder.float64)
  | .bytes => return .bytes (← Decoder.byteString settings)
  | .string => return .string (← Decoder.text settings)

def decodeEnum (e : EnumType) : Decoder Value := do
  let start ← Decoder.position
  let ordinal ← Decoder.varint
  if ordinal < e.symbols.length then return .enum ordinal
  throw (.malformed start (.enumOrdinal ordinal e.fullName))

def decodeFixed (f : FixedType) : Decoder Value := return .fixed (← Decoder.exact f.size)

/-- `left` more elements, of which the first is number `i`; `before` holds those decoded, the latest
first. -/
def decodeItems (decode : Option Value → Decoder Value) :
    Nat → Nat → List Value → List Value → Decoder (List Value)
  | 0, _, _, before => return before.reverse
  | left + 1, i, previous, before => do
    let item ← Decoder.within s!"[{i}]" (decode previous.head?)
    decodeItems decode left (i + 1) previous.tail (item :: before)

/-- `left` more entries after those in `m`; no key comes twice. -/
def decodeEntries (settings : Settings) (decode : Option Value → Decoder Value)
    (previous : StateMap Value) : Nat → StateMap Value → Decoder (StateMap Value)
  | 0, m => return m
  | left + 1, m => do
    let start ← Decoder.position
    let key ← Decoder.text settings
    if m.contains key then throw (.malformed start (.duplicateKey key))
    let value ← Decoder.within s!"[{Text.quoted key}]" (decode (previous.get? key))
    decodeEntries settings decode previous left (m.load key value)

/-- The entries of a map after their count, all of them unchanged. -/
def decodeEntriesOf (settings : Settings) (decode : Option Value → Decoder Value)
    (previous : StateMap Value) : Decoder (StateMap Value) := do
  let count ← Decoder.count settings
  decodeEntries settings decode previous count StateMap.empty

/-- The slots for the fields of a record called `name`, in place of `previous`. -/
def decodeFields (decode : Schema → Option Value → Decoder Value) (name : String) :
    List Field → List Value → Decoder (List Value)
  | [], _ => return []
  | field :: fields, previous => do
    let value ← Decoder.within s!"{name}.{field.name}" (decode field.schema previous.head?)
    let values ← decodeFields decode name fields previous.tail
    return value :: values

/-- The record filled again: every field readable, none dirty. -/
def refill (decode : Schema → Option Value → Decoder Value) (target : Record Value) :
    Decoder (Record Value) := do
  let slots ← decodeFields decode target.layout.name target.layout.fields target.slots
  return ⟨target.layout, slots, FieldBits.new target.layout.fieldCount, target.layout.selectAll⟩

/-- The value inside, if it stands in the branch. -/
def sameBranch? (branch : Nat) : Value → Option Value
  | .union b value => if b = branch then some value else none
  | _ => none

mutual

/-- The decoder of a schema, whose nested records are read by `record`. -/
def decodeWith (settings : Settings) (record : RecordRef → Option Value → Decoder Value) :
    Schema → Option Value → Decoder Value
  | .primitive kind, _ => decodePrimitive settings kind
  | .enum e, _ => decodeEnum e
  | .fixed f, _ => decodeFixed f
  | .record r, reuse => record r reuse
  | .array element, reuse => do
    let count ← Decoder.count settings
    let previous := (reuse.bind Value.array?).getD []
    return .array (← decodeItems (decodeWith settings record element) count 0 previous [])
  | .map schema, reuse => do
    let previous := (reuse.bind Value.map?).getD StateMap.empty
    return .map (← decodeEntriesOf settings (decodeWith settings record schema) previous)
  | .union branches, reuse => do
    let start ← Decoder.position
    let branch ← Decoder.varint
    let outside := Error.malformed start (.unionBranch branch (Schema.union branches).display)
    match Schema.nullPosition? branches with
    | some _ => decodeBranch settings record outside branches branch reuse
    | none =>
      let value ← decodeBranch settings record outside branches branch (reuse.bind (sameBranch? branch))
      return .union branch value

/-- The value of the branch at a position, or the error for a position outside. -/
def decodeBranch (settings : Settings) (record : RecordRef → Option Value → Decoder Value)
    (outside : Error) : List Schema → Nat → Option Value → Decoder Value
  | [], _, _ => throw outside
  | type :: _, 0, reuse => decodeWith settings record type reuse
  | _ :: rest, branch + 1, reuse => decodeBranch settings record outside rest branch reuse

end

/-- The record to fill: the one in place, if it is of the type, or a new one. -/
def targetOf (compiled : CompiledRecord) : Option Value → Record Value
  | some (.record r) =>
    if r.typeName = compiled.layout.fullName then r else compiled.fresh compiled.layout
  | _ => compiled.fresh compiled.layout

/-- The decoder of a nested record below which `left - 1` more may nest. -/
def decodeNested (registry : Registry) (settings : Settings) (maxDepth : Nat) :
    Nat → RecordRef → Option Value → Decoder Value
  | 0, _, _ => do throw (.malformed (← Decoder.position) (.nesting maxDepth))
  | left + 1, type, reuse => do
    match registry.record? type.fullName with
    | none => throw (.schemaMismatch (.notCompiled type.fullName))
    | some compiled =>
      let decode := decodeWith settings (decodeNested registry settings maxDepth left)
      return .record (← refill decode (targetOf compiled reuse))

/-- The decoder of a value in which records nest up to `maxDepth` deep. -/
def decode (registry : Registry) (settings : Settings) (maxDepth : Nat) :
    Schema → Option Value → Decoder Value :=
  decodeWith settings (decodeNested registry settings maxDepth maxDepth)

/-- All fields of a record, in place of those of `target`. -/
def decodeRecord (registry : Registry) (settings : Settings) (maxDepth : Nat) (target : Record Value) :
    Decoder (Record Value) :=
  refill (decode registry settings maxDepth) target

/-- A map, in place of `previous`. -/
def decodeMap (registry : Registry) (settings : Settings) (maxDepth : Nat) (schema : Schema)
    (previous : StateMap Value) : Decoder (StateMap Value) :=
  decodeEntriesOf settings (decode registry settings maxDepth schema) previous

end TrackedRecord.Wire.Plain
