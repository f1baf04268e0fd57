import TrackedRecord.FieldBits
import TrackedRecord.Wire.Cursor

/-!
# Packed bits

A bit set as its length and then eight bits a byte: bit `i` is bit `i % 8` of byte `i / 8`, counted
from the lowest. The bits of the last byte that belong to no field are zero.
-/

namespace TrackedRecord.Wire

/-- How many bytes hold `len` bits. -/
def packedLength (len : Nat) : Nat := (len + 7) / 8

/-- The byte of eight bits, lowest first. -/
def packByte (bit : Nat → Bool) : UInt8 :=
  UInt8.ofNat ((List.range 8).foldl (fun n j => if bit j then n + Nat.pow 2 j else n) 0)

def unpackByte (b : UInt8) : List Bool := (List.range 8).map fun j => b.toNat.testBit j

def encodeBits (bits : FieldBits) : List UInt8 :=
  Varint.ofNat bits.len ++
    (List.range (packedLength bits.len)).map fun k => packByte fun j => bits.get (8 * k + j)

namespace Decoder

def packedBits (len : Nat) : Decoder FieldBits := do
  let start ← position
  let bytes ← exact (packedLength len)
  let bools := bytes.flatMap unpackByte
  if (bools.drop len).any id then throw (.malformed start .paddingBit)
  return FieldBits.ofBools (bools.take len)

/-- Packed bits after their number. -/
def bits (settings : Settings) : Decoder FieldBits := do
  let len ← count settings
  packedBits len

end Decoder

end TrackedRecord.Wire
