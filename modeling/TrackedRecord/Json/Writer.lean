import TrackedRecord.Decimal.Layout
import TrackedRecord.Json.Basic
import TrackedRecord.Text.Hex

/-!
# Writing JSON

Documents as text: compact, or indented by two spaces. Doubles have the fewest digits that read back;
what is no finite number is written `null`.
-/

namespace TrackedRecord.Json

/-- Doubles stand positionally from 10^-5 up to 10^16, a tie goes to the even digit, and positive
exponents have a sign. -/
def numberLayout : Decimal.Layout where
  leastPositional := -5
  endPositional := 16
  plusSign := "+"
  tie := .even
  nan := "null"
  infinity := "null"

/-- A double that is no finite number has no JSON number. -/
def ofDouble (bits : UInt64) : Json :=
  match Decimal.double.unpack bits.toNat with
  | .finite .. => .number (.double bits)
  | _ => .null

def Number.text : Number → String
  | .whole n => toString n
  | .double bits => numberLayout.text Decimal.double bits.toNat

def escapeChar (c : Char) : List Char :=
  if c = '"' then ['\\', '"']
  else if c = '\\' then ['\\', '\\']
  else if c.toNat = 0x8 then ['\\', 'b']
  else if c.toNat = 0xC then ['\\', 'f']
  else if c = '\n' then ['\\', 'n']
  else if c = '\r' then ['\\', 'r']
  else if c = '\t' then ['\\', 't']
  else if c.toNat < 0x20 then ['\\', 'u'] ++ Text.hexDigits 4 c.toNat
  else [c]

def quote (s : String) : String := String.ofList ('"' :: s.toList.flatMap escapeChar ++ ['"'])

mutual

/-- The text without any white space. -/
def compact : Json → String
  | .null => "null"
  | .bool b => if b then "true" else "false"
  | .number n => n.text
  | .string s => quote s
  | .array items => "[" ++ ",".intercalate (compactItems items) ++ "]"
  | .object members => "\x7b" ++ ",".intercalate (compactMembers members) ++ "\x7d"

def compactItems : List Json → List String
  | [] => []
  | item :: rest => compact item :: compactItems rest

def compactMembers : List (String × Json) → List String
  | [] => []
  | (key, item) :: rest => (quote key ++ ":" ++ compact item) :: compactMembers rest

end

def indent (level : Nat) : String := String.ofList (List.replicate (2 * level) ' ')

/-- Lines between two brackets, one level further in. -/
def block (level : Nat) (opening : String) (lines : List String) (closing : String) : String :=
  if lines.isEmpty then opening ++ closing
  else
    opening ++ "\n" ++ indent (level + 1) ++ (",\n" ++ indent (level + 1)).intercalate lines ++
      "\n" ++ indent level ++ closing

mutual

/-- The text with one item or member a line. -/
def indentedFrom (level : Nat) : Json → String
  | .array items => block level "[" (indentedItems (level + 1) items) "]"
  | .object members => block level "\x7b" (indentedMembers (level + 1) members) "\x7d"
  | .null => "null"
  | .bool b => if b then "true" else "false"
  | .number n => n.text
  | .string s => quote s

def indentedItems (level : Nat) : List Json → List String
  | [] => []
  | item :: rest => indentedFrom level item :: indentedItems level rest

def indentedMembers (level : Nat) : List (String × Json) → List String
  | [] => []
  | (key, item) :: rest => (quote key ++ ": " ++ indentedFrom level item) :: indentedMembers level rest

end

def indented (json : Json) : String := indentedFrom 0 json

end TrackedRecord.Json
