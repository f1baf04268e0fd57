import TrackedRecord.Keyed

/-!
# Maps that track their changes

Entries and, beside them, what happened to single keys since the map was loaded. A visible key without
a state of its own is unchanged; a deleted key has a state and no entry.
-/

namespace TrackedRecord

inductive EntryState where
  | unchanged
  | updated
  | deleted
  deriving DecidableEq, Repr

namespace EntryState

def tag : EntryState → UInt8
  | .unchanged => 0
  | .updated => 1
  | .deleted => 2

def ofTag? (tag : UInt8) : Option EntryState :=
  if tag = 0 then some .unchanged
  else if tag = 1 then some .updated
  else if tag = 2 then some .deleted
  else none

def name : EntryState → String
  | .unchanged => "unchanged"
  | .updated => "updated"
  | .deleted => "deleted"

def ofName? (name : String) : Option EntryState :=
  [.unchanged, .updated, .deleted].find? fun state => state.name == name

end EntryState

/-- Both lists are sorted by key. -/
structure StateMap (α : Type) where
  entries : List (String × α) := []
  states : List (String × EntryState) := []

namespace StateMap

variable {α : Type}

def empty : StateMap α := {}

def get? (map : StateMap α) (key : String) : Option α := Keyed.get? key map.entries

def contains (map : StateMap α) (key : String) : Bool := Keyed.contains key map.entries

def size (map : StateMap α) : Nat := map.entries.length

def keys (map : StateMap α) : List String := Keyed.keys map.entries

/-- Writes an entry; its key is updated. -/
def put (map : StateMap α) (key : String) (value : α) : StateMap α :=
  ⟨Keyed.put key value map.entries, Keyed.put key .updated map.states⟩

/-- Removes an entry; its key is deleted, whether or not there was an entry. -/
def remove (map : StateMap α) (key : String) : StateMap α :=
  ⟨Keyed.erase key map.entries, Keyed.put key .deleted map.states⟩

/-- Removes every entry; every key that was visible is deleted. -/
def clear (map : StateMap α) : StateMap α :=
  ⟨[], map.keys.foldl (fun states key => Keyed.put key .deleted states) map.states⟩

/-- The state of a key that has one or is visible. -/
def state? (map : StateMap α) (key : String) : Option EntryState :=
  (Keyed.get? key map.states).or (if map.contains key then some .unchanged else none)

/-- Gives a key a state and leaves the entries. -/
def setState (map : StateMap α) (key : String) (state : EntryState) : StateMap α :=
  { map with states := Keyed.put key state map.states }

/-- Inserts an entry as it was stored, with no change of state. -/
def load (map : StateMap α) (key : String) (value : α) : StateMap α :=
  { map with entries := Keyed.put key value map.entries }

def clearStates (map : StateMap α) : StateMap α := { map with states := [] }

/-- The map of stored entries. -/
def ofList (entries : List (String × α)) : StateMap α :=
  entries.foldl (fun map (key, value) => map.load key value) empty

end StateMap

end TrackedRecord
