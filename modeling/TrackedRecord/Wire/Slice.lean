import TrackedRecord.Wire.PackedBits

/-!
# Reading a slice

The whole input and the position in it, as a reader holds them in memory. Its reads are checked: a run in
which an index or a number is out of range is over and reports no error. Positions, lengths and indices are
words.
-/

namespace TrackedRecord.Wire

structure Slice where
  data : List UInt8
  pos : Nat := 0
  deriving DecidableEq, Repr

/-- What a checked run may end in but a result. -/
inductive Halt where
  | error (e : Error)
  /-- An index or a number was out of range. -/
  | trap
  deriving DecidableEq, Repr

abbrev Checked := EStateM Halt Slice

namespace Checked

variable {α : Type}

def refuse (e : Error) : Checked α := throw (.error e)

def trap : Checked α := throw .trap

/-- The run with its errors placed inside a field or an element. -/
def within (segment : String) (run : Checked α) : Checked α := fun s =>
  match run s with
  | .ok a s => .ok a s
  | .error (.error e) s => .error (.error (e.within segment)) s
  | .error .trap s => .error .trap s

/-! ### Words and indices -/

def add (a b : Nat) : Checked Nat := if a + b < wordBound then return a + b else trap

def sub (a b : Nat) : Checked Nat := if b ≤ a then return a - b else trap

def mul (a b : Nat) : Checked Nat := if a * b < wordBound then return a * b else trap

/-- By how much a number of `width` bits may be shifted. -/
def amount (width n : Nat) : Checked Nat := if n < width then return n else trap

def index (items : List α) (i : Nat) : Checked α :=
  match items[i]? with
  | some a => return a
  | none => trap

/-- The items with `a` in place of number `i`. -/
def put (items : List α) (i : Nat) (a : α) : Checked (List α) :=
  if i < items.length then return items.set i a else trap

/-- The items from number `start` up to number `stop`. -/
def range (items : List α) (start stop : Nat) : Checked (List α) :=
  if start ≤ stop ∧ stop ≤ items.length then return (items.drop start).take (stop - start) else trap

/-! ### Bytes -/

def position : Checked Nat := fun s => .ok s.pos s

def remaining : Checked Nat := do
  let s ← get
  sub s.data.length s.pos

def atEnd : Checked Bool := do
  let s ← get
  return s.pos == s.data.length

def exact (n : Nat) : Checked (List UInt8) := do
  let s ← get
  let left ← remaining
  if left < n then
    let missing ← sub n left
    refuse (.truncated s.pos missing)
  else
    let stop ← add s.pos n
    let bytes ← range s.data s.pos stop
    set { s with pos := stop }
    return bytes

/-- The bytes as an array of `n`, into which no other number of them goes. -/
def array (n : Nat) : Checked (List UInt8) := do
  let bytes ← exact n
  if bytes.length = n then return bytes else trap

def byte : Checked UInt8 := do
  let bytes ← array 1
  index bytes 0

/-- Groups of a varint from number `i` on, `left` of them at most, above the bits of `value`. The tenth
group holds one bit. -/
def varintGroups (start : Nat) : Nat → Nat → UInt64 → Checked Nat
  | 0, _, _ => refuse (.malformed start .varintTooLong)
  | left + 1, i, value => do
    let b ← byte
    let low := (b &&& 0x7F).toUInt64
    if left = 0 ∧ 1 < low then refuse (.malformed start .varintOverflow)
    else
      let bits ← mul 7 i
      let shift ← amount 64 bits
      let value := value ||| low <<< UInt64.ofNat shift
      if b &&& 0x80 = 0 then return value.toNat
      else varintGroups start left (i + 1) value

def varint : Checked Nat := do
  let start ← position
  varintGroups start 10 0 0

/-! ### Scalars -/

/-- A count of entries within the limit. -/
def count (settings : Settings) : Checked Nat := do
  let start ← position
  let n ← varint
  if settings.maxCollection < n then refuse (.malformed start (.countLimit n settings.maxCollection))
  else return n

def boolean : Checked Bool := do
  let start ← position
  let b ← byte
  if b = 0 then return false
  else if b = 1 then return true
  else refuse (.malformed start (.booleanByte b))

def fixedWidth (width : Nat) : Checked Nat := do
  let bytes ← array width
  return ofLittleEndian bytes

def int32 : Checked Int32 := do
  let bits ← fixedWidth 4
  return Int32.ofBitVec (BitVec.ofNat 32 bits)

def int64 : Checked Int64 := do
  let bits ← fixedWidth 8
  return Int64.ofBitVec (BitVec.ofNat 64 bits)

def float32 : Checked UInt32 := do
  let bits ← fixedWidth 4
  return UInt32.ofNat bits

def float64 : Checked UInt64 := do
  let bits ← fixedWidth 8
  return UInt64.ofNat bits

/-- A byte string after its length, which is within the limit. -/
def byteString (settings : Settings) : Checked (List UInt8) := do
  let start ← position
  let length ← varint
  if settings.maxBytes < length then refuse (.malformed start (.lengthLimit length settings.maxBytes))
  else exact length

def text (settings : Settings) : Checked String := do
  let start ← position
  let bytes ← byteString settings
  match Utf8.decode? bytes with
  | some s => return s
  | none => refuse (.malformed start .stringNotUtf8)

/-! ### Bit sets -/

def getBit (bits : FieldBits) (i : Nat) : Checked Bool := do
  if i < bits.len then
    let word ← index bits.words (i / 64)
    let shift ← amount 64 (i % 64)
    return word.getLsbD shift
  else return false

/-- Sets bit `i`, if there is one. -/
def setBit (bits : FieldBits) (i : Nat) : Checked FieldBits := do
  if i < bits.len then
    let word ← index bits.words (i / 64)
    let shift ← amount 64 (i % 64)
    let words ← put bits.words (i / 64) (word ||| BitVec.twoPow 64 shift)
    return { bits with words }
  else return bits

def setAll (bits : FieldBits) : Checked FieldBits := (List.range bits.len).foldlM setBit bits

/-- The positions of the set bits in ascending order. -/
def ones (bits : FieldBits) : Checked (List Nat) := (List.range bits.len).filterM (getBit bits)

/-- Bit `j` of byte number `k` of packed bits. -/
def unpackBit (start len k : Nat) (b : UInt8) (bits : FieldBits) (j : Nat) : Checked FieldBits := do
  let shift ← amount 8 j
  if b.toNat.testBit shift then
    let front ← mul k 8
    let i ← add front j
    if len ≤ i then refuse (.malformed start .paddingBit)
    else setBit bits i
  else return bits

/-- Packed bits from byte number `k` on. -/
def unpackBytes (start len : Nat) : Nat → List UInt8 → FieldBits → Checked FieldBits
  | _, [], bits => return bits
  | k, b :: bytes, bits => do
    let bits ← (List.range 8).foldlM (unpackBit start len k b) bits
    unpackBytes start len (k + 1) bytes bits

def packedBits (len : Nat) : Checked FieldBits := do
  let start ← position
  let bytes ← exact (packedLength len)
  unpackBytes start len 0 bytes (FieldBits.new len)

/-- Packed bits after their number. -/
def bits (settings : Settings) : Checked FieldBits := do
  let len ← count settings
  packedBits len

end Checked

/-! ### Calls -/

namespace Slice

/-- A call that reads. What a caller asks for is a word. -/
inductive Call where
  | exact (n : UInt64)
  | byte
  | varint
  | count
  | boolean
  | int32
  | int64
  | float32
  | float64
  | byteString
  | text
  | packedBits (len : UInt64)
  | bits
  deriving DecidableEq, Repr

/-- The call, less its result. -/
def Call.run (settings : Settings) : Call → Checked Unit
  | .exact n => discard (Checked.exact n.toNat)
  | .byte => discard Checked.byte
  | .varint => discard Checked.varint
  | .count => discard (Checked.count settings)
  | .boolean => discard Checked.boolean
  | .int32 => discard Checked.int32
  | .int64 => discard Checked.int64
  | .float32 => discard Checked.float32
  | .float64 => discard Checked.float64
  | .byteString => discard (Checked.byteString settings)
  | .text => discard (Checked.text settings)
  | .packedBits len => discard (Checked.packedBits len.toNat)
  | .bits => discard (Checked.bits settings)

/-- The call of a decoder. -/
def Call.decode (settings : Settings) : Call → Decoder Unit
  | .exact n => discard (Decoder.exact n.toNat)
  | .byte => discard Decoder.byte
  | .varint => discard Decoder.varint
  | .count => discard (Decoder.count settings)
  | .boolean => discard Decoder.boolean
  | .int32 => discard Decoder.int32
  | .int64 => discard Decoder.int64
  | .float32 => discard Decoder.float32
  | .float64 => discard Decoder.float64
  | .byteString => discard (Decoder.byteString settings)
  | .text => discard (Decoder.text settings)
  | .packedBits len => discard (Decoder.packedBits len.toNat)
  | .bits => discard (Decoder.bits settings)

/-- What calls one after another leave of the slice, whatever each of them gives; nothing if one traps. -/
def after? (settings : Settings) : Slice → List Call → Option (List Slice)
  | _, [] => some []
  | s, call :: rest =>
    match call.run settings s with
    | .ok _ s' => (after? settings s' rest).map (s' :: ·)
    | .error (.error _) s' => (after? settings s' rest).map (s' :: ·)
    | .error .trap _ => none

end Slice

/-- What calls one after another leave of the bytes. -/
def Cursor.after (settings : Settings) : Cursor → List Slice.Call → List Cursor
  | _, [] => []
  | c, call :: rest =>
    match call.decode settings c with
    | .ok _ c' => c' :: after settings c' rest
    | .error _ c' => c' :: after settings c' rest

end TrackedRecord.Wire
