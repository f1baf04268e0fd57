import TrackedRecord.Json.Basic
import TrackedRecord.Text.Hex

/-!
# Reading JSON

A reader of RFC 8259 documents over the characters that are left. Every function takes the remaining
characters and returns what it read with those after it.
-/

namespace TrackedRecord.Json

inductive ReadError where
  | unexpectedEnd
  | unexpected (c : Char)
  | control (c : Char)
  | loneSurrogate
  | nesting
  | numberRange
  | trailing (c : Char)
  deriving DecidableEq, Repr

def ReadError.message : ReadError → String
  | .unexpectedEnd => "unexpected end of the document"
  | .unexpected c => s!"unexpected character U+{String.ofList (Nat.toDigits 16 c.toNat)}"
  | .control c => s!"control character U+{String.ofList (Nat.toDigits 16 c.toNat)} in a string"
  | .loneSurrogate => "lone surrogate in a string"
  | .nesting => "nesting is too deep"
  | .numberRange => "number out of range"
  | .trailing c => s!"character U+{String.ofList (Nat.toDigits 16 c.toNat)} after the document"

/-- What a reader refuses beyond the grammar. -/
structure Strictness where
  maxNesting : Nat
  finiteNumbers : Bool
  pairedSurrogates : Bool
  /-- Whether half a surrogate pair is refused in the keys of the outermost object. -/
  pairedKeys : Bool
  deriving DecidableEq, Repr

/-- The strictness for the keys of an object in which `nesting` more levels may stand. -/
def Strictness.forKeys (strict : Strictness) (nesting : Nat) : Strictness :=
  if nesting + 1 = strict.maxNesting then { strict with pairedSurrogates := strict.pairedKeys } else strict

namespace Reader

/-- What was read, with the characters after it. -/
abbrev Found (α : Type) := α × List Char

def isSpace (c : Char) : Bool := c = ' ' || c = '\t' || c = '\n' || c = '\r'

def skipSpace (cs : List Char) : List Char := cs.dropWhile isSpace

/-- The error for what stands where something else should. -/
def unexpected {α : Type} : List Char → Except ReadError (Found α)
  | [] => .error .unexpectedEnd
  | c :: _ => .error (.unexpected c)

def keyword {α : Type} (value : α) : List Char → List Char → Except ReadError (Found α)
  | [], cs => .ok (value, cs)
  | w :: word, c :: cs => if c = w then keyword value word cs else unexpected (c :: cs)
  | _ :: _, [] => .error .unexpectedEnd

/-! ### Strings -/

/-- The next `digits` hexadecimal digits as a number. -/
def hexNumber : Nat → Nat → List Char → Except ReadError (Found Nat)
  | 0, value, cs => .ok (value, cs)
  | _ + 1, _, [] => .error .unexpectedEnd
  | digits + 1, value, c :: cs =>
    match Text.hexValue? c with
    | some d => hexNumber digits (value * 16 + d) cs
    | none => .error (.unexpected c)

/-- Half a surrogate pair: refused, or read as the replacement character. -/
def loneSurrogate (strict : Strictness) (cs : List Char) : Except ReadError (Found Char) :=
  if strict.pairedSurrogates then .error .loneSurrogate else .ok (Char.ofNat 0xFFFD, cs)

/-- The character of a `\u` escape whose `u` was read. -/
def unicodeEscape (strict : Strictness) (cs : List Char) : Except ReadError (Found Char) := do
  let (high, cs) ← hexNumber 4 0 cs
  if high < 0xD800 ∨ 0xDFFF < high then return (Char.ofNat high, cs)
  if 0xDC00 ≤ high then return ← loneSurrogate strict cs
  match cs with
  | '\\' :: 'u' :: after =>
    let (low, after) ← hexNumber 4 0 after
    if 0xDC00 ≤ low ∧ low ≤ 0xDFFF then
      return (Char.ofNat (0x10000 + (high - 0xD800) * 0x400 + (low - 0xDC00)), after)
    else loneSurrogate strict cs
  | _ => loneSurrogate strict cs

/-- The character of an escape whose backslash was read. -/
def escape (strict : Strictness) : List Char → Except ReadError (Found Char)
  | [] => .error .unexpectedEnd
  | c :: cs =>
    match c with
    | '"' => .ok ('"', cs)
    | '\\' => .ok ('\\', cs)
    | '/' => .ok ('/', cs)
    | 'b' => .ok (Char.ofNat 0x8, cs)
    | 'f' => .ok (Char.ofNat 0xC, cs)
    | 'n' => .ok ('\n', cs)
    | 'r' => .ok ('\r', cs)
    | 't' => .ok ('\t', cs)
    | 'u' => unicodeEscape strict cs
    | _ => .error (.unexpected c)

/-- The characters up to the closing quote; `before` holds those read, the latest first. The fuel has to
exceed the number of characters that are left. -/
def stringRest (strict : Strictness) : Nat → List Char → List Char → Except ReadError (Found String)
  | 0, _, _ => .error .unexpectedEnd
  | _ + 1, _, [] => .error .unexpectedEnd
  | fuel + 1, before, c :: cs =>
    if c = '"' then .ok (String.ofList before.reverse, cs)
    else if c = '\\' then
      match escape strict cs with
      | .ok (d, after) => stringRest strict fuel (d :: before) after
      | .error e => .error e
    else if c.toNat < 0x20 then .error (.control c)
    else stringRest strict fuel (c :: before) cs

def string (strict : Strictness) (fuel : Nat) (cs : List Char) : Except ReadError (Found String) :=
  stringRest strict fuel [] cs

/-! ### Numbers -/

def digitsValue (digits : List Char) : Nat :=
  digits.foldl (fun value d => value * 10 + (d.toNat - 0x30)) 0

def digits (cs : List Char) : Except ReadError (Found (List Char)) :=
  match cs.span Char.isDigit with
  | ([], rest) => unexpected rest
  | (found, rest) => .ok (found, rest)

/-- Digits of which the first is zero only if it is the only one. -/
def wholeDigits (cs : List Char) : Except ReadError (Found (List Char)) := do
  let (found, rest) ← digits cs
  match found with
  | '0' :: second :: _ => .error (.unexpected second)
  | _ => return (found, rest)

def fraction : List Char → Except ReadError (Found (Option (List Char)))
  | '.' :: cs => do
    let (found, rest) ← digits cs
    return (some found, rest)
  | cs => .ok (none, cs)

def exponent : List Char → Except ReadError (Found (Option Int))
  | c :: cs =>
    if c = 'e' ∨ c = 'E' then do
      let (negative, cs) := match cs with
        | '-' :: after => (true, after)
        | '+' :: after => (false, after)
        | _ => (false, cs)
      let (found, rest) ← digits cs
      let size : Int := digitsValue found
      return (some (if negative then -size else size), rest)
    else .ok (none, c :: cs)
  | [] => .ok (none, [])

/-- A double, refused or infinite when it is out of range. -/
def double (strict : Strictness) (negative : Bool) (digits : Nat) (shift : Int) : Except ReadError Number :=
  match Decimal.ofDecimal? negative digits shift with
  | some bits => .ok (.double (UInt64.ofNat bits))
  | none =>
    if strict.finiteNumbers then .error .numberRange
    else .ok (.double (UInt64.ofNat Decimal.double.infinity))

/-- The number of a sign, whole digits, a fraction and an exponent. -/
def numberOf (strict : Strictness) (negative : Bool) (whole : List Char) (frac : Option (List Char))
    (exp : Option Int) : Except ReadError Number :=
  match frac, exp with
  | none, none =>
    let size := digitsValue whole
    let n : Int := if negative then -size else size
    if (negative ∧ size = 0) ∨ n < minWhole ∨ maxWhole < n then double strict negative size 0
    else .ok (.whole n)
  | _, _ =>
    let places := frac.getD []
    double strict negative (digitsValue (whole ++ places)) (exp.getD 0 - places.length)

/-- Whether a minus sign stands in front. -/
def sign : List Char → Found Bool
  | '-' :: after => (true, after)
  | cs => (false, cs)

def number (strict : Strictness) (cs : List Char) : Except ReadError (Found Number) := do
  let (negative, cs) := sign cs
  let (whole, cs) ← wholeDigits cs
  let (frac, cs) ← fraction cs
  let (exp, cs) ← exponent cs
  let n ← numberOf strict negative whole frac exp
  return (n, cs)

/-! ### Values -/

mutual

/-- One value. The members of objects stand as they were written. -/
def value (strict : Strictness) : Nat → Nat → List Char → Except ReadError (Found Json)
  | 0, _, _ => .error .unexpectedEnd
  | fuel + 1, nesting, cs =>
    match skipSpace cs with
    | [] => .error .unexpectedEnd
    | c :: rest =>
      if c = 'n' then keyword .null ['u', 'l', 'l'] rest
      else if c = 't' then keyword (.bool true) ['r', 'u', 'e'] rest
      else if c = 'f' then keyword (.bool false) ['a', 'l', 's', 'e'] rest
      else if c = '"' then do
        let (s, rest) ← string strict fuel rest
        return (.string s, rest)
      else if c = '[' then
        if nesting = 0 then .error .nesting
        else match skipSpace rest with
          | ']' :: after => .ok (.array [], after)
          | _ => do
            let (found, rest) ← items strict fuel (nesting - 1) [] rest
            return (.array found, rest)
      else if c = '\x7b' then
        if nesting = 0 then .error .nesting
        else match skipSpace rest with
          | '\x7d' :: after => .ok (.object [], after)
          | _ => do
            let (found, rest) ← members strict fuel (nesting - 1) [] rest
            return (.object found, rest)
      else if c = '-' ∨ c.isDigit then do
        let (n, rest) ← number strict (c :: rest)
        return (.number n, rest)
      else .error (.unexpected c)

/-- The items of an array that is not empty, the latest first in `before`. -/
def items (strict : Strictness) : Nat → Nat → List Json → List Char → Except ReadError (Found (List Json))
  | 0, _, _, _ => .error .unexpectedEnd
  | fuel + 1, nesting, before, cs => do
    let (item, cs) ← value strict fuel nesting cs
    match skipSpace cs with
    | ',' :: after => items strict fuel nesting (item :: before) after
    | ']' :: after => .ok ((item :: before).reverse, after)
    | other => unexpected other

/-- The members of an object that is not empty, the latest first in `before`. -/
def members (strict : Strictness) : Nat → Nat → List (String × Json) → List Char →
    Except ReadError (Found (List (String × Json)))
  | 0, _, _, _ => .error .unexpectedEnd
  | fuel + 1, nesting, before, cs =>
    match skipSpace cs with
    | '"' :: rest => do
      let (key, rest) ← string (strict.forKeys nesting) fuel rest
      match skipSpace rest with
      | ':' :: rest => do
        let (item, rest) ← value strict fuel nesting rest
        match skipSpace rest with
        | ',' :: after => members strict fuel nesting ((key, item) :: before) after
        | '\x7d' :: after => .ok (((key, item) :: before).reverse, after)
        | other => unexpected other
      | other => unexpected other
    | other => unexpected other

end

/-- One value and nothing after it but white space. -/
def document (strict : Strictness) (text : String) : Except ReadError Json := do
  let cs := text.toList
  let (json, rest) ← value strict (2 * cs.length + 2) strict.maxNesting cs
  match skipSpace rest with
  | [] => return json
  | c :: _ => .error (.trailing c)

end Reader

mutual

/-- The document with the members of every object sorted by key, each key once. -/
def sorted : Json → Json
  | .array items => .array (sortedItems items)
  | .object members => ofMembers (sortedMembers members)
  | json => json

def sortedItems : List Json → List Json
  | [] => []
  | item :: rest => sorted item :: sortedItems rest

def sortedMembers : List (String × Json) → List (String × Json)
  | [] => []
  | (key, item) :: rest => (key, sorted item) :: sortedMembers rest

end

/-- Documents are read in full: 127 levels of nesting, finite numbers and paired surrogates. -/
def full : Strictness := ⟨127, true, true, true⟩

/-- Parts of a document that nobody looks at have to keep the grammar alone. The keys of its outermost
object are looked at. -/
def skimmed (text : String) : Strictness := ⟨text.length, false, false, true⟩

def read (text : String) : Except ReadError Json := (Reader.document full text).map sorted

/-- The document of a text, or what is wrong with the text. -/
def ofText (text : String) : Except String Json := (read text).mapError ReadError.message

/-- The document of a text that is only skimmed, its members as they were written. -/
def skim (text : String) : Except ReadError Json := Reader.document (skimmed text) text

end TrackedRecord.Json
