import TrackedRecord.Decimal.Binary

/-!
# Shortest decimal digits

The fewest decimal digits that read back as a given binary number, and among those the nearest to it.
A number stands for every real that rounds to it; on the grids of one digit, two digits and so on the
number's two neighbours are tested, and the first grid with a hit gives the digits.
-/

namespace TrackedRecord.Decimal

/-- Which of two digit strings at equal distance is taken. -/
inductive Tie where
  | even
  | up
  deriving DecidableEq, Repr

/-- A decimal `digits * 10 ^ exponent`. -/
structure Digits where
  digits : Nat
  exponent : Int
  deriving DecidableEq, Repr

/-- The reals that round to a number, as `low / den` to `high / den` around `value / den`. -/
structure Interval where
  low : Nat
  value : Nat
  high : Nat
  den : Nat
  closed : Bool
  deriving DecidableEq, Repr

/-- The interval of `significand * 2 ^ exponent`, its ends included iff the significand is even.
Below a power of two the neighbour is half as far. -/
def Interval.of (f : Format) (significand : Nat) (exponent : Int) : Interval :=
  let below := if significand = Nat.pow 2 f.fractionBits ∧ f.leastExponent < exponent then 1 else 2
  let (unit, den) := Format.scale 1 1 (exponent - 2)
  { low := (4 * significand - below) * unit
    value := 4 * significand * unit
    high := (4 * significand + 2) * unit
    den
    closed := significand % 2 = 0 }

namespace Interval

def contains (i : Interval) (n d : Nat) : Bool :=
  if i.closed then i.low * d ≤ n * i.den && n * i.den ≤ i.high * d
  else i.low * d < n * i.den && n * i.den < i.high * d

def gridUnit (k : Int) : Nat × Nat :=
  if 0 ≤ k then (Nat.pow 10 k.toNat, 1) else (1, Nat.pow 10 (-k).toNat)

/-- The neighbours of the value on the grid of `10 ^ k`; the nearer of those that lie inside. -/
def hit? (tie : Tie) (i : Interval) (k : Int) : Option Nat :=
  let (num, den) := gridUnit k
  let floor := i.value * den / (i.den * num)
  let inside (d : Nat) : Bool := i.contains (d * num) den
  match inside floor && floor != 0, inside (floor + 1) with
  | true, true =>
    let down := i.value * den - floor * num * i.den
    let up := (floor + 1) * num * i.den - i.value * den
    if down < up then some floor
    else if up < down then some (floor + 1)
    else match tie with
      | .up => some (floor + 1)
      | .even => some (floor + floor % 2)
  | true, false => some floor
  | false, true => some (floor + 1)
  | false, false => none

/-- Tests the grids from `10 ^ k` down. -/
def search (tie : Tie) (i : Interval) : Nat → Int → Digits
  | 0, k => ⟨i.value * (gridUnit k).2 / (i.den * (gridUnit k).1), k⟩
  | n + 1, k =>
    match i.hit? tie k with
    | some digits => ⟨digits, k⟩
    | none => search tie i n (k - 1)

/-- The greatest `e` with `10 ^ e ≤ value`, from a guess that is off by one at most. -/
def decimalExponent (i : Interval) : Int :=
  let guess : Int := Format.binaryExponent i.value i.den * 30103 / 100000
  let fits (e : Int) : Bool := (gridUnit e).1 * i.den ≤ i.value * (gridUnit e).2
  if fits (guess + 1) then guess + 1 else if fits guess then guess else guess - 1

end Interval

def Digits.trimmed : Nat → Digits → Digits
  | 0, d => d
  | n + 1, d => if d.digits % 10 = 0 ∧ d.digits ≠ 0 then trimmed n ⟨d.digits / 10, d.exponent + 1⟩ else d

/-- The shortest digits of `significand * 2 ^ exponent`, which is not zero. -/
def shortest (tie : Tie) (f : Format) (significand : Nat) (exponent : Int) : Digits :=
  let i := Interval.of f significand exponent
  Digits.trimmed 20 (i.search tie 18 i.decimalExponent)

end TrackedRecord.Decimal
