/-!
# Hexadecimal digits

Numbers in lower-case hexadecimal, padded with zeros, and byte strings with two digits a byte.
-/

namespace TrackedRecord.Text

/-- The last `width` hexadecimal digits of `n`. -/
def hexDigits : Nat → Nat → List Char
  | 0, _ => []
  | width + 1, n => hexDigits width (n / 16) ++ [Nat.digitChar (n % 16)]

def hex (width n : Nat) : String := String.ofList (hexDigits width n)

/-- Two digits for each byte. -/
def hexBytes (bytes : List UInt8) : String := String.ofList (bytes.flatMap fun b => hexDigits 2 b.toNat)

/-- The value of a hexadecimal digit of either case. -/
def hexValue? (c : Char) : Option Nat :=
  if '0' ≤ c ∧ c ≤ '9' then some (c.toNat - 0x30)
  else if 'a' ≤ c ∧ c ≤ 'f' then some (c.toNat - 0x61 + 10)
  else if 'A' ≤ c ∧ c ≤ 'F' then some (c.toNat - 0x41 + 10)
  else none

/-- The bytes of a text with two digits for each. -/
def bytesOfHexChars? : List Char → Option (List UInt8)
  | [] => some []
  | a :: b :: rest => do
    let high ← hexValue? a
    let low ← hexValue? b
    let bytes ← bytesOfHexChars? rest
    return UInt8.ofNat (16 * high + low) :: bytes
  | _ => none

def bytesOfHex? (text : String) : Option (List UInt8) := bytesOfHexChars? text.toList

end TrackedRecord.Text
