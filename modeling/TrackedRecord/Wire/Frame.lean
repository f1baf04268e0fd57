import TrackedRecord.Wire.Crc32
import TrackedRecord.Wire.Cursor

/-!
# Frames

A payload with the name of its record type, lengths around both and a checksum behind them:
four bytes of frame length, the type name and the payload each after four bytes of length, and four
bytes of checksum over all before. Lengths have the lowest byte first; the frame length counts itself
and the checksum.
-/

namespace TrackedRecord.Wire

structure Frame where
  type : String
  payload : List UInt8
  deriving DecidableEq, Repr

namespace Frame

/-- The bytes of three lengths and a checksum. -/
def overhead : Nat := 16

def body (frame : Frame) : List UInt8 :=
  let name := Utf8.encode frame.type
  littleEndian 4 (overhead + name.length + frame.payload.length) ++
    littleEndian 4 name.length ++ name ++ littleEndian 4 frame.payload.length ++ frame.payload

def encode (frame : Frame) : List UInt8 :=
  frame.body ++ littleEndian 4 (Crc32.checksum frame.body).toNat

/-- The four-byte number at an offset. -/
def wordAt (bytes : List UInt8) (offset : Nat) : Nat := ofLittleEndian ((bytes.drop offset).take 4)

/-- The section at `pos` and the position after it. -/
def sectionAt (settings : Settings) (body : List UInt8) (pos : Nat) :
    Except Error (List UInt8 × Nat) :=
  if body.length < pos + 4 then .error (.truncated body.length (pos + 4 - body.length))
  else
    let length := wordAt body pos
    if settings.maxBytes < length then .error (.malformed pos (.sectionLimit length settings.maxBytes))
    else if body.length < pos + 4 + length then .error (.malformed pos .sectionOverrun)
    else .ok ((body.drop (pos + 4)).take length, pos + 4 + length)

/-- The frame at the front of the bytes and its length. -/
def decode (settings : Settings) (bytes : List UInt8) : Except Error (Frame × Nat) := do
  if bytes.length < overhead then throw (.truncated bytes.length (overhead - bytes.length))
  let length := wordAt bytes 0
  if length < overhead then throw (.malformed 0 (.frameLength length))
  if bytes.length < length then throw (.truncated bytes.length (length - bytes.length))
  let body := bytes.take (length - 4)
  if settings.verifyFrames then
    let stored := BitVec.ofNat 32 (wordAt bytes (length - 4))
    let computed := Crc32.checksum body
    if computed ≠ stored then throw (.corruption (.checksum computed stored))
  let (name, pos) ← sectionAt settings body 4
  let some type := Utf8.decode? name | throw (.malformed 8 .frameTypeNotUtf8)
  let (payload, pos) ← sectionAt settings body pos
  if pos ≠ length - 4 then throw (.malformed pos (.beforeChecksum (length - 4 - pos)))
  return (⟨type, payload⟩, length)

end Frame

end TrackedRecord.Wire
