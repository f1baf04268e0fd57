import TrackedRecord.Journal.Basic
import TrackedRecord.Schema.Library
import TrackedRecord.Wire.Codec

/-!
# Reports

The journal entries about loading, compiling, encoding and decoding.
-/

namespace TrackedRecord.Journal

def schemasLoaded (path : String) (batch : Library.Batch) : Entry :=
  .ofEvent .schemaLoaded
    [("path", path), ("files", toString batch.files), ("schemas", toString batch.schemas)]

/-- One entry before compiling and, if it succeeds, one after it. -/
def compiled (roots : List Schema) (result : Except SchemaError Registry) : List Entry :=
  .ofEvent .compileBegin [("roots", toString roots.length)] ::
    match result with
    | .ok registry => [.ofEvent .compileComplete [("records", toString registry.records.length),
        ("enums", toString registry.enums.length), ("fixed", toString registry.fixed.length)]]
    | .error _ => []

def sourceGenerated (registry : Registry) (source : String) : Entry :=
  .ofEvent .sourceGenerated
    [("records", toString registry.records.length), ("bytes", toString source.utf8ByteSize)]

def settingsLoaded (path : String) (settings : Wire.Settings) : Entry :=
  .ofEvent .configLoaded [("path", path), ("max_collection_len", toString settings.maxCollection),
    ("max_bytes_len", toString settings.maxBytes), ("max_depth", toString settings.maxDepth)]

def recordCoded (event : Event) (codec : Wire.Codec) (r : Record Value) (bytes : Nat) : Entry :=
  .ofEvent event
    [("type", codec.typeName), ("bytes", toString bytes), ("readable", toString r.readable.count)]

def encoded (codec : Wire.Codec) (r : Record Value) (result : Except Wire.Error (List UInt8)) :
    List Entry :=
  match result with
  | .ok bytes => [recordCoded .recordEncoded codec r bytes.length]
  | .error _ => []

def decodeFailed (codec : Wire.Codec) (e : Wire.Error) : Entry :=
  .ofEvent .decodeFailed [("type", codec.typeName), ("code", e.kind.code),
    ("offset", match e.offset with | some offset => toString offset | none => "")]

def decoded (codec : Wire.Codec) (bytes : Nat) (result : Except Wire.Error (Record Value)) : Entry :=
  match result with
  | .ok r => recordCoded .recordDecoded codec r bytes
  | .error e => decodeFailed codec e

/-- An entry for a frame whose checksum is wrong. -/
def frameOpened (result : Except Wire.Error (Wire.Frame × Nat)) : List Entry :=
  match result with
  | .error ⟨_, .checksum computed stored, _, _, _⟩ =>
    [.ofEvent .frameCorrupt
      [("computed", Text.hex 8 computed.toNat), ("stored", Text.hex 8 stored.toNat)]]
  | _ => []

/-- The entries about decoding a frame; its payload is decoded only if the type is the codec's. -/
def framedDecoded (codec : Wire.Codec) (bytes : List UInt8)
    (result : Except Wire.Error (Record Value × Nat)) : List Entry :=
  let frame := Wire.Frame.decode codec.settings bytes
  frameOpened frame ++
    match frame with
    | .ok (frame, _) =>
      if frame.type = codec.typeName then [decoded codec frame.payload.length (result.map Prod.fst)] else []
    | .error _ => []

end TrackedRecord.Journal
