import TrackedRecord.Wire.Codec
import TrackedRecord.Wire.Slice

/-!
# Payloads in a slice

The decoders of plain values and of payloads, run over a slice. Fields and slots are taken by their numbers:
the value in place is taken out of its slot, decoded into and put back, and a number without a slot is a trap.
-/

namespace TrackedRecord.Wire

namespace Checked

/-! ### Plain values -/

def primitive (settings : Settings) : Primitive → Checked Value
  | .null => return .null
  | .boolean => return .boolean (← boolean)
  | .int => return .int (← int32)
  | .long => return .long (← int64)
  | .float => return .float (← float32)
  | .double => return .double (← float64)
  | .bytes => return .bytes (← byteString settings)
  | .string => return .string (← text settings)

def enum (e : EnumType) : Checked Value := do
  let start ← position
  let ordinal ← varint
  if ordinal < e.symbols.length then return .enum ordinal
  else refuse (.malformed start (.enumOrdinal ordinal e.fullName))

def fixed (f : FixedType) : Checked Value := return .fixed (← exact f.size)

/-- `left` more elements, of which the first is number `i`; `before` holds those decoded, the latest
first. -/
def items (decode : Option Value → Checked Value) : Nat → Nat → List Value → List Value → Checked (List Value)
  | 0, _, _, before => return before.reverse
  | left + 1, i, previous, before => do
    let item ← within s!"[{i}]" (decode previous.head?)
    items decode left (i + 1) previous.tail (item :: before)

/-- `left` more entries after those in `m`; no key comes twice. -/
def entries (settings : Settings) (decode : Option Value → Checked Value) (previous : StateMap Value) :
    Nat → StateMap Value → Checked (StateMap Value)
  | 0, m => return m
  | left + 1, m => do
    let start ← position
    let key ← text settings
    if m.contains key then refuse (.malformed start (.duplicateKey key))
    else
      let value ← within s!"[{Text.quoted key}]" (decode (previous.get? key))
      entries settings decode previous left (m.load key value)

/-- The slots of a record called `name` with its fields from number `i` on decoded into them. -/
def fields (decode : Schema → Option Value → Checked Value) (name : String) :
    List Field → Nat → List Value → Checked (List Value)
  | [], _, slots => return slots
  | field :: rest, i, slots => do
    let previous ← index slots i
    let slots ← put slots i .null
    let value ← within s!"{name}.{field.name}" (decode field.schema (some previous))
    let slots ← put slots i value
    fields decode name rest (i + 1) slots

/-- The record filled again: every field readable, none dirty. -/
def refill (decode : Schema → Option Value → Checked Value) (target : Record Value) : Checked (Record Value) := do
  let slots ← fields decode target.layout.name target.layout.fields 0 target.slots
  let readable ← setAll (FieldBits.new target.layout.fieldCount)
  return ⟨target.layout, slots, FieldBits.new target.layout.fieldCount, readable⟩

mutual

/-- A value of a schema, whose nested records are read by `record`. -/
def value (settings : Settings) (record : RecordRef → Option Value → Checked Value) :
    Schema → Option Value → Checked Value
  | .primitive kind, _ => primitive settings kind
  | .enum e, _ => enum e
  | .fixed f, _ => fixed f
  | .record r, reuse => record r reuse
  | .array element, reuse => do
    let count ← count settings
    -- room is made for no more elements than bytes are left
    let _ ← remaining
    let previous := (reuse.bind Value.array?).getD []
    return .array (← items (value settings record element) count 0 previous [])
  | .map schema, reuse => do
    let previous := (reuse.bind Value.map?).getD StateMap.empty
    let count ← count settings
    return .map (← entries settings (value settings record schema) previous count StateMap.empty)
  | .union branches, reuse => do
    let start ← position
    let number ← varint
    let outside := Error.malformed start (.unionBranch number (Schema.union branches).display)
    match Schema.nullPosition? branches with
    | some _ => branch settings record outside branches number reuse
    | none =>
      let inner ← branch settings record outside branches number (reuse.bind (Plain.sameBranch? number))
      return .union number inner

/-- The value of the branch of a number, or the error for a number without a branch. -/
def branch (settings : Settings) (record : RecordRef → Option Value → Checked Value) (outside : Error) :
    List Schema → Nat → Option Value → Checked Value
  | [], _, _ => refuse outside
  | type :: _, 0, reuse => value settings record type reuse
  | _ :: rest, number + 1, reuse => branch settings record outside rest number reuse

end

/-- A nested record below which `left - 1` more may nest. -/
def nested (registry : Registry) (settings : Settings) (maxDepth : Nat) :
    Nat → RecordRef → Option Value → Checked Value
  | 0, _, _ => do refuse (.malformed (← position) (.nesting maxDepth))
  | left + 1, type, reuse => do
    match registry.record? type.fullName with
    | none => refuse (.schemaMismatch (.notCompiled type.fullName))
    | some compiled =>
      let decode := value settings (nested registry settings maxDepth left)
      return .record (← refill decode (Plain.targetOf compiled reuse))

/-- A value in which records nest up to `maxDepth` deep. -/
def plain (registry : Registry) (settings : Settings) (maxDepth : Nat) : Schema → Option Value → Checked Value :=
  value settings (nested registry settings maxDepth maxDepth)

/-! ### Payloads -/

/-- `left` more keys after those in `states`; no key comes twice. -/
def statesFrom (settings : Settings) :
    Nat → List (String × EntryState) → Checked (List (String × EntryState))
  | 0, states => return states
  | left + 1, states => do
    let start ← position
    let key ← text settings
    let tagStart ← position
    let tag ← byte
    match EntryState.ofTag? tag with
    | none => refuse (.malformed tagStart (.stateTag tag))
    | some state =>
      if Keyed.contains key states then refuse (.malformed start .duplicateState)
      else statesFrom settings left (Keyed.put key state states)

def states (settings : Settings) : Checked (List (String × EntryState)) := do
  let count ← count settings
  statesFrom settings count []

/-- The table in front of a field; only a map field has one. -/
def fieldStates (settings : Settings) (field : Field) : Checked (List (String × EntryState)) :=
  if field.kind = .map then states settings else return []

/-- The slots with a field decoded into number `i`. -/
def field (registry : Registry) (settings : Settings) (field : Field) (slots : List Value) (i : Nat) :
    Checked (List Value) := do
  let states ← fieldStates settings field
  let start ← position
  let previous ← index slots i
  let slots ← put slots i .null
  let value ← plain registry settings settings.maxDepth field.schema (some previous)
  match Payload.withStates start states value with
  | .ok value => put slots i value
  | .error e => refuse e

/-- The slots with the fields of the given numbers decoded into them. -/
def numberedFields (registry : Registry) (settings : Settings) (layout : Layout) :
    List Nat → List Value → Checked (List Value)
  | [], slots => return slots
  | i :: rest, slots => do
    let type ← index layout.fields i
    let slots ← within s!"{layout.name}.{type.name}" (field registry settings type slots i)
    numberedFields registry settings layout rest slots

/-- One bit for each field of the layout. -/
def bitmap (layout : Layout) (which : String) : Checked FieldBits := do
  let start ← position
  let bits ← varint
  if bits ≠ layout.fieldCount then
    refuse ((Error.schemaMismatch (.bitmapLength which bits layout.fullName layout.fieldCount)).atByte start)
  else packedBits bits

/-- All of a payload, decoded into `target`, with whatever may come behind. -/
def fill (registry : Registry) (settings : Settings) (layout : Layout) (target : Record Value) :
    Checked (Record Value) := do
  let dirty ← bitmap layout "dirty"
  let readable ← bitmap layout "readable"
  let present ← ones readable
  let slots ← numberedFields registry settings layout present target.slots
  return ⟨target.layout, slots, dirty, readable⟩

/-- The run with nothing left behind it. -/
def whole {α : Type} (run : Checked α) : Checked α := do
  let a ← run
  if ← atEnd then return a
  else
    let start ← position
    let left ← remaining
    refuse (.malformed start (.trailingBytes left))

def payload (registry : Registry) (settings : Settings) (layout : Layout) (target : Record Value) :
    Checked (Record Value) :=
  whole (fill registry settings layout target.clearState)

end Checked

namespace Codec

def decodeSliceInto (codec : Codec) (target : Record Value) (bytes : List UInt8) : Except Halt (Record Value) :=
  match Checked.payload codec.registry codec.settings codec.layout target { data := bytes } with
  | .ok r _ => .ok r
  | .error halt _ => .error halt

/-- Decodes a payload with every index and number checked. -/
def decodeSlice (codec : Codec) (bytes : List UInt8) (reuse : Option (Record Value)) :
    Except Halt (Record Value) :=
  match reuse with
  | some r => do
    (codec.checkType r).mapError Halt.error
    codec.decodeSliceInto r bytes
  | none => codec.decodeSliceInto codec.target.1 bytes

end Codec

end TrackedRecord.Wire
