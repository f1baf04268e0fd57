import TrackedRecord.Text.Utf8
import TrackedRecord.Wire.Error
import TrackedRecord.Wire.Settings
import TrackedRecord.Wire.Varint

/-!
# Reading bytes

A decoder takes bytes from the front of its input. Its position only grows, and it stays where it is
when a read fails, so an error can be followed by further reads.
-/

namespace TrackedRecord.Wire

/-- The bytes that are left, and how many were taken before them. -/
structure Cursor where
  rest : List UInt8
  pos : Nat := 0
  deriving DecidableEq, Repr

namespace Cursor

def start (bytes : List UInt8) : Cursor := ⟨bytes, 0⟩

def remaining (c : Cursor) : Nat := c.rest.length

def atEnd (c : Cursor) : Bool := c.rest.isEmpty

end Cursor

abbrev Decoder := EStateM Error Cursor

namespace Decoder

def position : Decoder Nat := fun c => .ok c.pos c

/-- The decoder with its errors placed inside a field or an element. -/
def within {α : Type} (segment : String) (decoder : Decoder α) : Decoder α := fun c =>
  match decoder c with
  | .ok a c => .ok a c
  | .error e c => .error (e.within segment) c

def exact (n : Nat) : Decoder (List UInt8) := fun c =>
  let taken := c.rest.take n
  if taken.length = n then .ok taken ⟨c.rest.drop n, c.pos + n⟩
  else .error (.truncated c.pos (n - taken.length)) c

def byte : Decoder UInt8 := fun c =>
  match c.rest with
  | [] => .error (.truncated c.pos 1) c
  | b :: rest => .ok b ⟨rest, c.pos + 1⟩

/-- Up to `left` more groups of a varint that began at `start`. The tenth group holds one bit. -/
def varintGroups (start : Nat) : Nat → Decoder Nat
  | 0 => throw (.malformed start .varintTooLong)
  | left + 1 => do
    let b ← byte
    let low := b.toNat % 0x80
    if left = 0 ∧ 1 < low then throw (.malformed start .varintOverflow)
    if b.toNat < 0x80 then return low
    let high ← varintGroups start left
    return low + 0x80 * high

def varint : Decoder Nat := do
  let start ← position
  varintGroups start 10

/-- A count of entries within the limit. -/
def count (settings : Settings) : Decoder Nat := do
  let start ← position
  let n ← varint
  if settings.maxCollection < n then throw (.malformed start (.countLimit n settings.maxCollection))
  return n

def boolean : Decoder Bool := do
  let start ← position
  let b ← byte
  if b = 0 then return false
  if b = 1 then return true
  throw (.malformed start (.booleanByte b))

def fixedWidth (width : Nat) : Decoder Nat := do
  let bytes ← exact width
  return ofLittleEndian bytes

def int32 : Decoder Int32 := do
  let bits ← fixedWidth 4
  return Int32.ofBitVec (BitVec.ofNat 32 bits)

def int64 : Decoder Int64 := do
  let bits ← fixedWidth 8
  return Int64.ofBitVec (BitVec.ofNat 64 bits)

def float32 : Decoder UInt32 := do
  let bits ← fixedWidth 4
  return UInt32.ofNat bits

def float64 : Decoder UInt64 := do
  let bits ← fixedWidth 8
  return UInt64.ofNat bits

/-- A byte string after its length, which is within the limit. -/
def byteString (settings : Settings) : Decoder (List UInt8) := do
  let start ← position
  let length ← varint
  if settings.maxBytes < length then throw (.malformed start (.lengthLimit length settings.maxBytes))
  exact length

def text (settings : Settings) : Decoder String := do
  let start ← position
  let bytes ← byteString settings
  match Utf8.decode? bytes with
  | some s => return s
  | none => throw (.malformed start .stringNotUtf8)

end Decoder

/-! ### Writing -/

def encodeByteString (bytes : List UInt8) : List UInt8 := Varint.ofNat bytes.length ++ bytes

def encodeText (s : String) : List UInt8 := encodeByteString (Utf8.encode s)

def encodeBoolean (b : Bool) : List UInt8 := [if b then 1 else 0]

def encodeInt32 (n : Int32) : List UInt8 := littleEndian 4 n.toBitVec.toNat

def encodeInt64 (n : Int64) : List UInt8 := littleEndian 8 n.toBitVec.toNat

def encodeFloat32 (bits : UInt32) : List UInt8 := littleEndian 4 bits.toNat

def encodeFloat64 (bits : UInt64) : List UInt8 := littleEndian 8 bits.toNat

end TrackedRecord.Wire
