import TrackedRecord.Decimal.Shortest

/-!
# Decimal layout

How the digits of a number are laid out as text: with a decimal point among them, or with an exponent
after them.
-/

namespace TrackedRecord.Decimal

/-- The choices of one number format. With `d.ddd * 10 ^ e` a number is written positionally iff
`leastPositional ≤ e < endPositional`. -/
structure Layout where
  leastPositional : Int
  endPositional : Int
  /-- What stands before an exponent that is not negative. -/
  plusSign : String
  tie : Tie
  nan : String
  infinity : String
  deriving DecidableEq, Repr

/-- Digits as text, with the point after `places` of them. -/
def withPoint (digits : List Char) (places : Int) : List Char :=
  if places ≤ 0 then ['0', '.'] ++ List.replicate (-places).toNat '0' ++ digits
  else
    let whole := digits.take places.toNat
    let rest := digits.drop places.toNat
    whole ++ List.replicate (places.toNat - digits.length) '0' ++ ['.'] ++ if rest.isEmpty then ['0'] else rest

/-- Digits as text, with a point after the first and an exponent. -/
def withExponent (plusSign : String) (digits : List Char) (exponent : Int) : List Char :=
  digits.take 1 ++ (if digits.length ≤ 1 then [] else '.' :: digits.drop 1) ++
    ['e'] ++ (if exponent < 0 then "" else plusSign).toList ++ (toString exponent).toList

def Layout.text (layout : Layout) (f : Format) (bits : Nat) : String :=
  let sign (negative : Bool) : String := if negative then "-" else ""
  match f.unpack bits with
  | .nan => layout.nan
  | .infinite negative => sign negative ++ layout.infinity
  | .finite negative 0 _ => sign negative ++ "0.0"
  | .finite negative significand exponent =>
    let shown := shortest layout.tie f significand exponent
    let digits := (toString shown.digits).toList
    let leading := shown.exponent + digits.length - 1
    let body :=
      if layout.leastPositional ≤ leading ∧ leading < layout.endPositional then withPoint digits (leading + 1)
      else withExponent layout.plusSign digits leading
    sign negative ++ String.ofList body

end TrackedRecord.Decimal
