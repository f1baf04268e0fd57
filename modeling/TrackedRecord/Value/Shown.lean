import TrackedRecord.Decimal.Layout
import TrackedRecord.Text.Quoted
import TrackedRecord.Value.Basic

/-!
# Values shown

The text of a value for people who look for mistakes: constructors by name, strings quoted, records
with their fields and the numbers of the fields that are dirty and readable.
-/

namespace TrackedRecord

namespace Value

/-- Numbers stand positionally from 10^-4 up to 10^16, and a tie goes up. -/
def numberLayout : Decimal.Layout where
  leastPositional := -4
  endPositional := 16
  plusSign := ""
  tie := .up
  nan := "NaN"
  infinity := "inf"

def showBytes (data : List UInt8) : String :=
  "[" ++ ", ".intercalate (data.map fun b => toString b.toNat) ++ "]"

def showIndices (indices : List Nat) : String :=
  "[" ++ ", ".intercalate (indices.map fun i => toString i) ++ "]"

def showState : EntryState → String
  | .unchanged => "Unchanged"
  | .updated => "Updated"
  | .deleted => "Deleted"

/-- Pairs of a quoted key and a text between braces. -/
def showPairs (pairs : List (String × String)) : String :=
  "\x7b" ++ ", ".intercalate (pairs.map fun (key, text) => Text.quoted key ++ ": " ++ text) ++ "\x7d"

/-- A record by its name and the texts of its slots. -/
def showRecord (layout : Layout) (slots : List String) (dirty readable : FieldBits) : String :=
  let fields := (layout.fields.zip slots).map fun (field, text) => field.name ++ ": " ++ text
  let state := ["dirty: " ++ showIndices dirty.ones, "readable: " ++ showIndices readable.ones]
  layout.fullName ++ " \x7b " ++ ", ".intercalate (fields ++ state) ++ " \x7d"

mutual

def shown : Value → String
  | .null => "Null"
  | .boolean b => if b then "Boolean(true)" else "Boolean(false)"
  | .int n => s!"Int({n.toInt})"
  | .long n => s!"Long({n.toInt})"
  | .float bits => s!"Float({numberLayout.text Decimal.single bits.toNat})"
  | .double bits => s!"Double({numberLayout.text Decimal.double bits.toNat})"
  | .bytes data => s!"Bytes({showBytes data})"
  | .string s => s!"String({Text.quoted s})"
  | .enum ordinal => s!"Enum({ordinal})"
  | .fixed data => s!"Fixed({showBytes data})"
  | .record ⟨layout, slots, dirty, readable⟩ =>
    s!"Record({showRecord layout (shownAll slots) dirty readable})"
  | .array items => "Array([" ++ ", ".intercalate (shownAll items) ++ "])"
  | .map ⟨entries, states⟩ =>
    let stateTexts := states.map fun (key, state) => (key, showState state)
    "Map(StateMap \x7b entries: " ++ showPairs (shownEntries entries) ++
      ", states: " ++ showPairs stateTexts ++ " \x7d)"
  | .union branch value => s!"Union \x7b branch: {branch}, value: {shown value} \x7d"

def shownAll : List Value → List String
  | [] => []
  | value :: rest => shown value :: shownAll rest

def shownEntries : List (String × Value) → List (String × String)
  | [] => []
  | (key, value) :: rest => (key, shown value) :: shownEntries rest

end

end Value

def Record.shown (r : Record Value) : String :=
  Value.showRecord r.layout (Value.shownAll r.slots) r.dirty r.readable

end TrackedRecord
