/-!
# Lists sorted by key

Pairs of a text and a value, in the order of the texts by code point and with each text once.
`get?_put` says what a look-up finds after an insertion.
-/

namespace TrackedRecord.Keyed

variable {α : Type}

def get? (key : String) (entries : List (String × α)) : Option α := entries.lookup key

def contains (key : String) (entries : List (String × α)) : Bool := (get? key entries).isSome

def keys (entries : List (String × α)) : List String := entries.map Prod.fst

/-- Inserts `value` at its place, instead of the value that `key` had. -/
def put (key : String) (value : α) : List (String × α) → List (String × α)
  | [] => [(key, value)]
  | (k, v) :: rest =>
    if key < k then (key, value) :: (k, v) :: rest
    else if key = k then (key, value) :: rest
    else (k, v) :: put key value rest

def erase (key : String) (entries : List (String × α)) : List (String × α) :=
  entries.filter fun entry => entry.1 != key

/-- The sorted list of all pairs; of two with one key the later counts. -/
def ofList (pairs : List (String × α)) : List (String × α) :=
  pairs.foldl (fun entries (key, value) => put key value entries) []

theorem get?_put (key other : String) (value : α) (entries : List (String × α)) :
    get? other (put key value entries) = if other = key then some value else get? other entries := by
  induction entries with
  | nil => simp only [put, get?, List.lookup_cons, List.lookup_nil]; split <;> split <;> simp_all
  | cons entry rest ih =>
    obtain ⟨k, v⟩ := entry
    simp only [get?] at ih ⊢
    simp only [put]
    split
    · simp only [List.lookup_cons]; split <;> split <;> simp_all
    · split
      · subst_vars; simp only [List.lookup_cons]; split <;> split <;> simp_all
      · simp only [List.lookup_cons, ih]; split <;> split <;> simp_all

end TrackedRecord.Keyed
