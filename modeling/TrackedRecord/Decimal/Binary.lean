/-!
# Binary floating-point formats

The values of a binary interchange format, by their bits. `Format.unpack` reads a bit pattern as a
significand times a power of two, and `Format.round` finds the pattern nearest to a fraction, a tie
going to the even neighbour. All arithmetic is exact.
-/

namespace TrackedRecord.Decimal

/-- A binary format: the stored bits of the significand and the bits of the exponent. -/
structure Format where
  fractionBits : Nat
  exponentBits : Nat
  deriving DecidableEq, Repr

def single : Format := ⟨23, 8⟩

def double : Format := ⟨52, 11⟩

/-- What a bit pattern stands for; a finite number is `significand * 2 ^ exponent`. -/
inductive Unpacked where
  | nan
  | infinite (negative : Bool)
  | finite (negative : Bool) (significand : Nat) (exponent : Int)
  deriving DecidableEq, Repr

namespace Format

/-- The exponent of the unit in the last place of the smallest numbers. -/
def leastExponent (f : Format) : Int := 2 - (Nat.pow 2 (f.exponentBits - 1) : Nat) - (f.fractionBits : Int)

def infinity (f : Format) : Nat := (Nat.pow 2 f.exponentBits - 1) * Nat.pow 2 f.fractionBits

def signBit (f : Format) : Nat := Nat.pow 2 (f.exponentBits + f.fractionBits)

def unpack (f : Format) (bits : Nat) : Unpacked :=
  let negative := f.signBit ≤ bits
  let magnitude := bits % f.signBit
  let biased := magnitude / Nat.pow 2 f.fractionBits
  let fraction := magnitude % Nat.pow 2 f.fractionBits
  if f.infinity < magnitude then .nan
  else if magnitude = f.infinity then .infinite negative
  else if biased = 0 then .finite negative fraction f.leastExponent
  else .finite negative (Nat.pow 2 f.fractionBits + fraction) (f.leastExponent + biased - 1)

/-- `num / den` to the nearest whole number, a tie to the even one. -/
def divideToEven (num den : Nat) : Nat :=
  let quotient := num / den
  let twice := 2 * (num % den)
  if twice < den then quotient
  else if den < twice then quotient + 1
  else quotient + quotient % 2

/-- `num / den * 2 ^ shift` as a fraction. -/
def scale (num den : Nat) (shift : Int) : Nat × Nat :=
  if 0 ≤ shift then (num * Nat.pow 2 shift.toNat, den) else (num, den * Nat.pow 2 (-shift).toNat)

/-- The greatest `e` with `2 ^ e ≤ num / den`, both positive. -/
def binaryExponent (num den : Nat) : Int :=
  let guess : Int := (Nat.log2 num : Int) - Nat.log2 den
  let (n, d) := scale num den (-guess)
  if d ≤ n then guess else guess - 1

/-- The pattern of the number nearest to `num / den`; too large a number gives infinity. -/
def roundMagnitude (f : Format) (num den : Nat) : Nat :=
  if num = 0 then 0
  else
    let exponent := max (binaryExponent num den - f.fractionBits) f.leastExponent
    let (n, d) := scale num den (-exponent)
    let steps := (exponent - f.leastExponent).toNat
    min (steps * Nat.pow 2 f.fractionBits + divideToEven n d) f.infinity

def round (f : Format) (negative : Bool) (num den : Nat) : Nat :=
  f.roundMagnitude num den + if negative then f.signBit else 0

def quietNan (f : Format) : Nat := f.infinity + Nat.pow 2 (f.fractionBits - 1)

/-- The pattern in `g` nearest to the number that `bits` stands for in `f`. -/
def convert (f g : Format) (bits : Nat) : Nat :=
  match f.unpack bits with
  | .nan => g.quietNan
  | .infinite negative => g.infinity + if negative then g.signBit else 0
  | .finite negative significand exponent =>
    let (num, den) := scale significand 1 exponent
    g.round negative num den

end Format

/-- The double nearest to `digits * 10 ^ shift`, or `none` if that is infinite. A number whose
leading digit stands more than 400 places before or behind the point is settled by that alone. -/
def ofDecimal? (negative : Bool) (digits : Nat) (shift : Int) : Option Nat :=
  let leading : Int := (Nat.toDigits 10 digits).length + shift
  if digits = 0 then some (double.round negative 0 1)
  else if 400 < leading then none
  else if leading < -400 then some (double.round negative 0 1)
  else
    let bits :=
      if 0 ≤ shift then double.round negative (digits * Nat.pow 10 shift.toNat) 1
      else double.round negative digits (Nat.pow 10 (-shift).toNat)
    if double.infinity ≤ bits % double.signBit then none else some bits

end TrackedRecord.Decimal
