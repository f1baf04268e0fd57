import TrackedRecord.Value.Basic

/-!
# Equality of values

Values are equal by their structure: numbers by their bits, records by type name and slots, maps by
their entries. State bits and entry states do not count. `content` is what a value hands to a hash.
-/

namespace TrackedRecord

namespace Value

mutual

def same : Value → Value → Bool
  | .null, .null => true
  | .boolean a, .boolean b => a == b
  | .int a, .int b => a == b
  | .long a, .long b => a == b
  | .float a, .float b => a == b
  | .double a, .double b => a == b
  | .bytes a, .bytes b => a == b
  | .string a, .string b => a == b
  | .enum a, .enum b => a == b
  | .fixed a, .fixed b => a == b
  | .record ⟨layout, slots, _, _⟩, .record ⟨layout', slots', _, _⟩ =>
    layout.fullName == layout'.fullName && sameAll slots slots'
  | .array items, .array items' => sameAll items items'
  | .map ⟨entries, _⟩, .map ⟨entries', _⟩ => sameEntries entries entries'
  | .union branch value, .union branch' value' => branch == branch' && same value value'
  | _, _ => false

def sameAll : List Value → List Value → Bool
  | [], [] => true
  | a :: as, b :: bs => same a b && sameAll as bs
  | _, _ => false

def sameEntries : List (String × Value) → List (String × Value) → Bool
  | [], [] => true
  | (key, a) :: as, (key', b) :: bs => key == key' && same a b && sameEntries as bs
  | _, _ => false

end

/-- One piece of what is hashed. -/
inductive Atom where
  /-- Which kind of value follows. -/
  | kind (n : Nat)
  /-- How many elements follow. -/
  | length (n : Nat)
  | boolean (b : Bool)
  | int (n : Int32)
  | long (n : Int64)
  | word32 (bits : UInt32)
  | word64 (bits : UInt64)
  | index (n : Nat)
  | bytes (data : List UInt8)
  | text (s : String)
  deriving DecidableEq, Repr

mutual

/-- What the value hands to a hash: its kind, then its parts. -/
def content : Value → List Atom
  | .null => [.kind 0]
  | .boolean b => [.kind 1, .boolean b]
  | .int n => [.kind 2, .int n]
  | .long n => [.kind 3, .long n]
  | .float bits => [.kind 4, .word32 bits]
  | .double bits => [.kind 5, .word64 bits]
  | .bytes data => [.kind 6, .bytes data]
  | .string s => [.kind 7, .text s]
  | .enum ordinal => [.kind 8, .index ordinal]
  | .fixed data => [.kind 9, .bytes data]
  | .record ⟨layout, slots, _, _⟩ =>
    .kind 10 :: .text layout.fullName :: .length slots.length :: contentAll slots
  | .array items => .kind 11 :: .length items.length :: contentAll items
  | .map ⟨entries, _⟩ => .kind 12 :: .length entries.length :: contentEntries entries
  | .union branch value => .kind 13 :: .index branch :: content value

def contentAll : List Value → List Atom
  | [] => []
  | value :: rest => content value ++ contentAll rest

def contentEntries : List (String × Value) → List Atom
  | [] => []
  | (key, value) :: rest => .text key :: content value ++ contentEntries rest

end

end Value

namespace StateMap

def same (a b : StateMap Value) : Bool := Value.sameEntries a.entries b.entries

def content (m : StateMap Value) : List Value.Atom :=
  .length m.entries.length :: Value.contentEntries m.entries

end StateMap

namespace Record

def same (a b : Record Value) : Bool := a.typeName == b.typeName && Value.sameAll a.slots b.slots

def content (r : Record Value) : List Value.Atom :=
  .text r.typeName :: .length r.slots.length :: Value.contentAll r.slots

end Record

end TrackedRecord
