/-!
# Bit sets over fields

One bit for each field of a record, kept in words of 64 bits. Bits beyond the length read as clear and
cannot be set, so the unused bits of the last word stay zero and equal bits mean equal sets.
-/

namespace TrackedRecord

structure FieldBits where
  words : List (BitVec 64)
  len : Nat
  deriving DecidableEq, Repr

namespace FieldBits

/-- A set of `len` clear bits. -/
def new (len : Nat) : FieldBits := ⟨List.replicate ((len + 63) / 64) 0, len⟩

def get (bits : FieldBits) (i : Nat) : Bool :=
  if i < bits.len then (bits.words.getD (i / 64) 0).getLsbD (i % 64) else false

/-- Sets bit `i`, if there is one. -/
def set (bits : FieldBits) (i : Nat) : FieldBits :=
  if i < bits.len then
    { bits with words := bits.words.modify (i / 64) fun word => word ||| BitVec.twoPow 64 (i % 64) }
  else bits

def unset (bits : FieldBits) (i : Nat) : FieldBits :=
  if i < bits.len then
    { bits with words := bits.words.modify (i / 64) fun word => word &&& ~~~BitVec.twoPow 64 (i % 64) }
  else bits

def setAll (bits : FieldBits) : FieldBits := (List.range bits.len).foldl set bits

def clearAll (bits : FieldBits) : FieldBits := { bits with words := bits.words.map fun _ => 0 }

def count (bits : FieldBits) : Nat :=
  bits.words.foldl (fun n word => n + (List.range 64).countP word.getLsbD) 0

def any (bits : FieldBits) : Bool := bits.words.any fun word => word != 0

def isEmpty (bits : FieldBits) : Bool := bits.len == 0

/-- The positions of the set bits in ascending order. -/
def ones (bits : FieldBits) : List Nat := (List.range bits.len).filter bits.get

def toBools (bits : FieldBits) : List Bool := (List.range bits.len).map bits.get

/-- The set of the given bits, bit 0 first. -/
def ofBools (bools : List Bool) : FieldBits :=
  bools.zipIdx.foldl (fun bits (bit, i) => if bit then bits.set i else bits) (new bools.length)

end FieldBits

end TrackedRecord
