import TrackedRecord.Text.CaseTable
import TrackedRecord.Text.Mark

/-!
# Letter case

Upper and lower case of whole texts. ASCII follows the arithmetic of its own two runs of letters, all
other characters follow the tables.
-/

namespace TrackedRecord.Text

def inRows (rows : List (Nat × Nat × Nat)) (c : Char) : Bool :=
  rows.any fun (first, last, step) =>
    first ≤ c.toNat && c.toNat ≤ last && (c.toNat - first) % step == 0

def isLowercase (c : Char) : Bool :=
  if c.toNat < 0x80 then c.isLower else inRows lowercaseRows c

def isUppercase (c : Char) : Bool :=
  if c.toNat < 0x80 then c.isUpper else inRows uppercaseRows c

def isCased (c : Char) : Bool := isLowercase c || isUppercase c || inRows titlecaseRows c

/-- `c` moved along the first row that holds it. -/
def mapRows (rows : List (Nat × Nat × Nat × Int)) (c : Char) : Char :=
  match rows.find? fun (first, last, step, _) =>
      first ≤ c.toNat && c.toNat ≤ last && (c.toNat - first) % step == 0 with
  | some (_, _, _, distance) => Char.ofNat ((c.toNat : Int) + distance).toNat
  | none => c

/-- The upper case of one character, which may be up to three characters. -/
def upperChar (c : Char) : List Char :=
  if c.toNat < 0x80 then [c.toUpper]
  else match toUpperSpecial.lookup c.toNat with
    | some codes => codes.map Char.ofNat
    | none => [mapRows toUpperRows c]

/-- The lower case of one character without its neighbours. -/
def lowerChar (c : Char) : List Char :=
  if c.toNat < 0x80 then [c.toLower]
  else if c.toNat = 0x130 then ['i', Char.ofNat 0x307]
  else [mapRows toLowerRows c]

def upper (s : String) : String := String.ofList (s.toList.flatMap upperChar)

/-- Whether `c` is passed over when the letters around a sigma are looked for. -/
def isCaseIgnorable (c : Char) : Bool :=
  inRanges markRanges c || inRanges formatRanges c || inRanges modifierRanges c ||
    [0x27, 0x2E, 0x3A, 0xB7, 0x387, 0x55F, 0x5F4, 0x2018, 0x2019, 0x2024, 0x2027, 0xFE13, 0xFE52,
      0xFE55, 0xFF07, 0xFF0E, 0xFF1A].contains c.toNat

/-- Whether the nearest character that is not passed over is cased. -/
def nextIsCased (cs : List Char) : Bool :=
  match cs.dropWhile isCaseIgnorable with
  | [] => false
  | c :: _ => isCased c

/-- Lower case from left to right; `before` holds what was read, the latest first. A capital sigma
that ends a word becomes a final sigma. -/
def lowerFrom (before : List Char) : List Char → List Char
  | [] => []
  | c :: after =>
    let image :=
      if c.toNat = 0x3A3 then
        [Char.ofNat (if nextIsCased before && !nextIsCased after then 0x3C2 else 0x3C3)]
      else lowerChar c
    image ++ lowerFrom (c :: before) after

def lower (s : String) : String := String.ofList (lowerFrom [] s.toList)

end TrackedRecord.Text
