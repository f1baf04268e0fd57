/-!
# Numbers as bytes

Unsigned LEB128, at most ten bytes for 64 bits, and fixed widths with the lowest byte first.
-/

namespace TrackedRecord.Wire

/-- What every count, length and ordinal stays below. -/
def wordBound : Nat := 0x10000000000000000

namespace Varint

/-- The groups of seven bits of `v`, lowest first, each but the last with its high bit set; `more`
groups may follow the first. -/
def groups : Nat → Nat → List UInt8
  | 0, v => [UInt8.ofNat v]
  | more + 1, v =>
    if v < 0x80 then [UInt8.ofNat v] else UInt8.ofNat (v % 0x80 + 0x80) :: groups more (v / 0x80)

def encode (v : UInt64) : List UInt8 := groups 9 v.toNat

/-- A length, a count or an ordinal. -/
def ofNat (n : Nat) : List UInt8 := encode (UInt64.ofNat n)

end Varint

/-- The `width` lowest bytes of `n`. -/
def littleEndian : Nat → Nat → List UInt8
  | 0, _ => []
  | width + 1, n => UInt8.ofNat n :: littleEndian width (n / 0x100)

def ofLittleEndian : List UInt8 → Nat
  | [] => 0
  | b :: bytes => b.toNat + 0x100 * ofLittleEndian bytes

end TrackedRecord.Wire
