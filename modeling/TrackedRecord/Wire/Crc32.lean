/-!
# CRC-32

The reflected cyclic redundancy check with the polynomial of IEEE 802.3.
-/

namespace TrackedRecord.Wire.Crc32

def polynomial : BitVec 32 := 0xEDB88320

/-- One bit of the division. -/
def shift (c : BitVec 32) : BitVec 32 := if c.getLsbD 0 then (c >>> 1) ^^^ polynomial else c >>> 1

def shifts : Nat → BitVec 32 → BitVec 32
  | 0, c => c
  | n + 1, c => shifts n (shift c)

/-- The remainder after one more byte. -/
def step (c : BitVec 32) (b : UInt8) : BitVec 32 := shifts 8 (c ^^^ b.toBitVec.setWidth 32)

def checksum (bytes : List UInt8) : BitVec 32 := ~~~bytes.foldl step (BitVec.allOnes 32)

end TrackedRecord.Wire.Crc32
