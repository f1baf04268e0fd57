import TrackedRecord.Wire.PackedBits
import TrackedRecord.Wire.Plain.Reader

/-!
# Payloads

The encoding of a record with its state: the dirty bits, the readable bits, and the readable fields in
order. In front of each map field stands a table of its entry states, sorted by key; a key outside the
table is unchanged. Fields that are not readable have no bytes. Nested records are plain.
-/

namespace TrackedRecord.Wire.Payload

/-! ### Tables of entry states -/

/-- One key with its state. -/
def encodeState : String × EntryState → List UInt8
  | (key, state) => encodeText key ++ [state.tag]

/-- The table of a map field; what is no map has an empty one. -/
def encodeStates (value : Value) : List UInt8 :=
  let states := value.mapOrEmpty.states
  Varint.ofNat states.length ++ states.flatMap encodeState

/-- `left` more keys after those in `states`; no key comes twice. -/
def decodeStatesFrom (settings : Settings) :
    Nat → List (String × EntryState) → Decoder (List (String × EntryState))
  | 0, states => return states
  | left + 1, states => do
    let start ← Decoder.position
    let key ← Decoder.text settings
    let tagStart ← Decoder.position
    let tag ← Decoder.byte
    match EntryState.ofTag? tag with
    | none => throw (.malformed tagStart (.stateTag tag))
    | some state =>
      if Keyed.contains key states then throw (.malformed start .duplicateState)
      decodeStatesFrom settings left (Keyed.put key state states)

def decodeStates (settings : Settings) : Decoder (List (String × EntryState)) := do
  let count ← Decoder.count settings
  decodeStatesFrom settings count []

/-! ### Fields -/

/-- A field of a record called `name`; a map has its states in front. -/
def encodeField (maxDepth : Nat) (name : String) (field : Field) (value : Value) :
    Except Error (List UInt8) := do
  let states := if field.kind = .map then encodeStates value else []
  let encoded ← Plain.inside s!"{name}.{field.name}" (Plain.encode maxDepth field.schema value)
  return states ++ encoded

def encodeFields (maxDepth : Nat) (layout : Layout) (slots : List Value) :
    List Nat → Except Error (List UInt8)
  | [] => .ok []
  | index :: rest =>
    match layout.fields[index]? with
    | none => .error (.outOfRange index layout.fieldCount)
    | some field =>
      match slots[index]? with
      | none => .error (.outOfRange index slots.length)
      | some value => do
        let first ← encodeField maxDepth layout.name field value
        let others ← encodeFields maxDepth layout slots rest
        return first ++ others

/-- The value with the entry states of its table; only a map may have some. -/
def withStates (start : Nat) (states : List (String × EntryState)) : Value → Except Error Value
  | .map m => .ok (.map (states.foldl (fun m (key, state) => m.setState key state) m))
  | value => if states.isEmpty then .ok value else .error (.malformed start .statesForNull)

/-- Field number `index`, in place of the value in its slot. -/
def decodeField (registry : Registry) (settings : Settings) (field : Field) (slots : List Value)
    (index : Nat) : Decoder Value := do
  let states ← if field.kind = .map then decodeStates settings else pure []
  let start ← Decoder.position
  match slots[index]? with
  | none => throw (.outOfRange index slots.length)
  | some previous =>
    let value ← Plain.decode registry settings settings.maxDepth field.schema (some previous)
    match withStates start states value with
    | .ok value => return value
    | .error e => throw e

/-- The slots with the fields of the given indices decoded into them. -/
def decodeFields (registry : Registry) (settings : Settings) (layout : Layout) :
    List Nat → List Value → Decoder (List Value)
  | [], slots => return slots
  | index :: rest, slots =>
    match layout.fields[index]? with
    | none => throw (.outOfRange index layout.fieldCount)
    | some field => do
      let value ← Decoder.within s!"{layout.name}.{field.name}"
        (decodeField registry settings field slots index)
      decodeFields registry settings layout rest (slots.set index value)

/-! ### Payloads -/

/-- The payload of a record, its fields by the layout `layout`. -/
def encode (maxDepth : Nat) (layout : Layout) (r : Record Value) : Except Error (List UInt8) := do
  let fields ← encodeFields maxDepth layout r.slots r.readable.ones
  return encodeBits r.dirty ++ encodeBits r.readable ++ fields

/-- One bit for each field of the layout. -/
def decodeBitmap (layout : Layout) (which : String) : Decoder FieldBits := do
  let start ← Decoder.position
  let bits ← Decoder.varint
  if bits ≠ layout.fieldCount then
    throw ((Error.schemaMismatch (.bitmapLength which bits layout.fullName layout.fieldCount)).atByte start)
  Decoder.packedBits bits

/-- A whole payload, decoded into `target`. Slots without bytes stay as they are, less their entry
states. -/
def decode (registry : Registry) (settings : Settings) (layout : Layout) (target : Record Value) :
    Decoder (Record Value) := do
  let target := target.clearState
  let dirty ← decodeBitmap layout "dirty"
  let readable ← decodeBitmap layout "readable"
  let slots ← decodeFields registry settings layout readable.ones target.slots
  let cursor ← get
  unless cursor.atEnd do throw (.malformed cursor.pos (.trailingBytes cursor.remaining))
  return ⟨target.layout, slots, dirty, readable⟩

end TrackedRecord.Wire.Payload
