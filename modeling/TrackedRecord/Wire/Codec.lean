import TrackedRecord.Wire.Frame
import TrackedRecord.Wire.Payload

/-!
# Codecs

Encoding and decoding of the records of one type. A codec may keep a prototype, of which decoded
records start as copies; it is made at the first decoding without a record to reuse.
-/

namespace TrackedRecord.Wire

structure Codec where
  registry : Registry
  compiled : CompiledRecord
  settings : Settings
  prototype : Option (Record Value) := none

namespace Codec

def layout (codec : Codec) : Layout := codec.compiled.layout

def typeName (codec : Codec) : String := codec.layout.fullName

def new (registry : Registry) (type : String) (settings : Settings) : Except Error Codec := do
  settings.validate
  match registry.record? type with
  | some compiled => return { registry, compiled, settings }
  | none => throw (.schemaMismatch (.notCompiled type))

def checkType (codec : Codec) (r : Record Value) : Except Error Unit :=
  if r.typeName = codec.typeName then .ok ()
  else .error (.schemaMismatch (.codecType codec.typeName r.typeName))

/-! ### Encoding -/

/-- The state and the readable fields of a record. -/
def encode (codec : Codec) (r : Record Value) : Except Error (List UInt8) := do
  codec.checkType r
  Payload.encode codec.settings.maxDepth codec.layout r

def encodeTo {α : Type} (codec : Codec) (r : Record Value)
    (sink : List UInt8 → Except Files.Failure α) : Except Error α := do
  let bytes ← codec.encode r
  match sink bytes with
  | .ok a => return a
  | .error failure => throw (.transfer .sink failure)

/-- The payload inside a frame. -/
def encodeFramed (codec : Codec) (r : Record Value) : Except Error (List UInt8) := do
  let payload ← codec.encode r
  return Frame.encode ⟨codec.typeName, payload⟩

/-! ### Decoding -/

/-- A new record, as a copy of the prototype if the settings say so. -/
def target (codec : Codec) : Record Value × Codec :=
  let fresh := codec.compiled.fresh codec.layout
  if codec.settings.cachePrototypes then
    let prototype := codec.prototype.getD fresh
    (Record.ofPrototype prototype, { codec with prototype := some prototype })
  else (fresh, codec)

def decodeInto (codec : Codec) (target : Record Value) (bytes : List UInt8) :
    Except Error (Record Value) :=
  match Payload.decode codec.registry codec.settings codec.layout target (Cursor.start bytes) with
  | .ok r _ => .ok r
  | .error e _ => .error e

/-- Decodes a payload into the record `reuse` or else into a new one. The bits and the entry states of
the result are those of the payload. -/
def decode (codec : Codec) (bytes : List UInt8) (reuse : Option (Record Value)) :
    Except Error (Record Value) × Codec :=
  match reuse with
  | some r => (do codec.checkType r; codec.decodeInto r bytes, codec)
  | none => let (r, codec) := codec.target; (codec.decodeInto r bytes, codec)

def decodeFrom (codec : Codec) (source : Except Files.Failure (List UInt8))
    (reuse : Option (Record Value)) : Except Error (Record Value) × Codec :=
  match source with
  | .ok bytes => codec.decode bytes reuse
  | .error failure => (.error (.transfer .source failure), codec)

/-- Decodes the frame at the front of the bytes; also gives the length of the frame. -/
def decodeFramed (codec : Codec) (bytes : List UInt8) (reuse : Option (Record Value)) :
    Except Error (Record Value × Nat) × Codec :=
  match Frame.decode codec.settings bytes with
  | .error e => (.error e, codec)
  | .ok (frame, consumed) =>
    if frame.type ≠ codec.typeName then
      (.error (.schemaMismatch (.frameType frame.type codec.typeName)), codec)
    else
      let (decoded, codec) := codec.decode frame.payload reuse
      (decoded.map fun r => (r, consumed), codec)

end Codec

end TrackedRecord.Wire
