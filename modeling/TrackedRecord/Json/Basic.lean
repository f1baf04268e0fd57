import TrackedRecord.Decimal.Binary
import TrackedRecord.Keyed

/-!
# JSON documents

The values of JSON. A number without fraction and exponent that fits 64 bits, with or without a sign,
is a whole number; every other number is a double, by its bits. The members of an object are sorted
by key.
-/

namespace TrackedRecord

namespace Json

inductive Number where
  | whole (n : Int)
  | double (bits : UInt64)
  deriving DecidableEq, Repr

/-- The greatest whole number and the least one. -/
def maxWhole : Int := 0xFFFFFFFFFFFFFFFF

def minWhole : Int := -0x8000000000000000

end Json

inductive Json where
  | null
  | bool (b : Bool)
  | number (n : Json.Number)
  | string (s : String)
  | array (items : List Json)
  | object (members : List (String × Json))

namespace Json

def int (n : Int) : Json := .number (.whole n)

def nat (n : Nat) : Json := .number (.whole n)

/-- An object of the given members; of two with one key the later counts. -/
def ofMembers (members : List (String × Json)) : Json := .object (Keyed.ofList members)

def member? (key : String) : Json → Option Json
  | .object members => Keyed.get? key members
  | _ => none

def isNull : Json → Bool
  | .null => true
  | _ => false

def string? : Json → Option String
  | .string s => some s
  | _ => none

def bool? : Json → Option Bool
  | .bool b => some b
  | _ => none

def array? : Json → Option (List Json)
  | .array items => some items
  | _ => none

def object? : Json → Option (List (String × Json))
  | .object members => some members
  | _ => none

/-- A whole number that fits 64 bits with a sign. -/
def int64? : Json → Option Int
  | .number (.whole n) => if n < 0x8000000000000000 then some n else none
  | _ => none

def uint64? : Json → Option Nat
  | .number (.whole n) => if 0 ≤ n then some n.toNat else none
  | _ => none

/-- The bits of the double nearest to a number. -/
def double? : Json → Option UInt64
  | .number (.whole n) => some (UInt64.ofNat (Decimal.double.round (n < 0) n.natAbs 1))
  | .number (.double bits) => some bits
  | _ => none

end Json

end TrackedRecord
