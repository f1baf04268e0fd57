import TrackedRecord.Proofs.StateMap
import TrackedRecord.Proofs.Value.Induction
import TrackedRecord.Value.Equality

/-!
# Equality by structure

Every value is the same as itself, and the operations on the entries of a map keep sameness.
-/

namespace TrackedRecord

namespace Value

theorem sameAll_refl {values : List Value} (each : ∀ value ∈ values, value.same value = true) :
    sameAll values values = true := by
  induction values with
  | nil => rfl
  | cons value rest ih =>
    rw [sameAll, each value List.mem_cons_self, ih fun value later => each value (List.mem_cons_of_mem _ later)]
    rfl

theorem sameEntries_cons {key key' : String} {a b : Value} {as bs : List (String × Value)} :
    sameEntries ((key, a) :: as) ((key', b) :: bs) = true ↔
      key = key' ∧ a.same b = true ∧ sameEntries as bs = true := by
  rw [sameEntries, Bool.and_eq_true, Bool.and_eq_true, beq_iff_eq, and_assoc]

theorem sameEntries_refl {entries : List (String × Value)}
    (each : ∀ entry ∈ entries, (Prod.snd entry).same entry.2 = true) : sameEntries entries entries = true := by
  induction entries with
  | nil => rfl
  | cons entry rest ih =>
    have others := ih fun entry later => each entry (List.mem_cons_of_mem _ later)
    exact sameEntries_cons.mpr ⟨rfl, each entry List.mem_cons_self, others⟩

@[simp] theorem same_refl (value : Value) : value.same value = true := by
  induction value using Value.induction with
  | record layout slots dirty readable ih =>
    rw [same, sameAll_refl ih, beq_self_eq_true]
    rfl
  | array items ih =>
    rw [same]
    exact sameAll_refl ih
  | map entries states ih =>
    rw [same]
    exact sameEntries_refl ih
  | union branch value ih =>
    rw [same, ih, beq_self_eq_true]
    rfl
  | null => rfl
  | _ => simp [same]

/-- Slots that are the same one by one. -/
theorem sameAll_of_getD {as bs : List Value} (length : as.length = bs.length)
    (each : ∀ i, (as.getD i .null).same (bs.getD i .null) = true) : sameAll as bs = true := by
  induction as generalizing bs with
  | nil =>
    cases bs with
    | nil => rfl
    | cons b bs => cases length
  | cons a as ih =>
    cases bs with
    | nil => cases length
    | cons b bs =>
      have first : a.same b = true := each 0
      rw [sameAll, first, ih (Nat.succ.inj length) fun i => each (i + 1)]
      rfl

theorem map_of_same {value : Value} {m : StateMap Value} (same : value.same (.map m) = true) :
    ∃ m', value = .map m' ∧ sameEntries m'.entries m.entries = true := by
  cases value with
  | map m' => exact ⟨m', rfl, same⟩
  | _ => cases same

/-! ### What is the same as a value -/

theorem sameAll_cons {a b : Value} {as bs : List Value} :
    sameAll (a :: as) (b :: bs) = true ↔ a.same b = true ∧ sameAll as bs = true := by
  rw [sameAll, Bool.and_eq_true]

theorem getD_same {as bs : List Value} (same : sameAll as bs = true) (i : Nat) :
    (as.getD i .null).same (bs.getD i .null) = true := by
  induction as generalizing bs i with
  | nil =>
    cases bs with
    | nil => exact same_refl _
    | cons b bs => cases same
  | cons a as ih =>
    cases bs with
    | nil => cases same
    | cons b bs =>
      obtain ⟨first, rest⟩ := sameAll_cons.mp same
      cases i with
      | zero => exact first
      | succ i => exact ih rest i

theorem sameAll_length {as bs : List Value} (same : sameAll as bs = true) : as.length = bs.length := by
  induction as generalizing bs with
  | nil =>
    cases bs with
    | nil => rfl
    | cons b bs => cases same
  | cons a as ih =>
    cases bs with
    | nil => cases same
    | cons b bs => exact congrArg Nat.succ (ih (sameAll_cons.mp same).2)

theorem sameEntries_length {as bs : List (String × Value)} (same : sameEntries as bs = true) :
    as.length = bs.length := by
  induction as generalizing bs with
  | nil =>
    cases bs with
    | nil => rfl
    | cons head bs => cases same
  | cons head as ih =>
    cases bs with
    | nil => cases same
    | cons other bs =>
      obtain ⟨key, a⟩ := head
      obtain ⟨key', b⟩ := other
      exact congrArg Nat.succ (ih (sameEntries_cons.mp same).2.2)

/-- Values are the same if they are equal or made alike of the same parts. -/
theorem same_cases {a b : Value} (same : a.same b = true) :
    a = b ∨ (∃ r r', a = .record r ∧ b = .record r' ∧ r.same r' = true) ∨
      (∃ items items', a = .array items ∧ b = .array items' ∧ sameAll items items' = true) ∨
      (∃ m m', a = .map m ∧ b = .map m' ∧ m.same m' = true) ∨
      ∃ branch value value', a = .union branch value ∧ b = .union branch value' ∧ value.same value' = true := by
  cases a with
  | record r =>
    cases b with
    | record r' => exact Or.inr (Or.inl ⟨r, r', rfl, rfl, same⟩)
    | _ => cases same
  | array items =>
    cases b with
    | array items' => exact Or.inr (Or.inr (Or.inl ⟨items, items', rfl, rfl, same⟩))
    | _ => cases same
  | map m =>
    cases b with
    | map m' => exact Or.inr (Or.inr (Or.inr (Or.inl ⟨m, m', rfl, rfl, same⟩)))
    | _ => cases same
  | union branch value =>
    cases b with
    | union branch' value' =>
      rw [Value.same, Bool.and_eq_true, beq_iff_eq] at same
      obtain ⟨rfl, inner⟩ := same
      exact Or.inr (Or.inr (Or.inr (Or.inr ⟨branch, value, value', rfl, rfl, inner⟩)))
    | _ => cases same
  | _ =>
    left
    cases b <;> first | rfl | cases same | exact congrArg _ (eq_of_beq same)

theorem same_record {r r' : Record Value} :
    r.same r' = true ↔ r.typeName = r'.typeName ∧ sameAll r.slots r'.slots = true := by
  rw [Record.same, Bool.and_eq_true, beq_iff_eq]

theorem same_isNull {a b : Value} (same : a.same b = true) : a.isNull = b.isNull := by
  rcases same_cases same with rfl | ⟨_, _, rfl, rfl, _⟩ | ⟨_, _, rfl, rfl, _⟩ | ⟨_, _, rfl, rfl, _⟩ |
    ⟨_, _, _, rfl, rfl, _⟩
  all_goals rfl

/-! ### Entries -/

theorem get?_same {as bs : List (String × Value)} (same : sameEntries as bs = true) (key : String) :
    Keyed.get? key as = none ∧ Keyed.get? key bs = none ∨
      ∃ a b, Keyed.get? key as = some a ∧ Keyed.get? key bs = some b ∧ a.same b = true := by
  induction as generalizing bs with
  | nil =>
    cases bs with
    | nil => exact Or.inl ⟨rfl, rfl⟩
    | cons head bs => cases same
  | cons head as ih =>
    cases bs with
    | nil => cases same
    | cons other bs =>
      obtain ⟨k, v⟩ := head
      obtain ⟨k', w⟩ := other
      obtain ⟨rfl, first, rest⟩ := sameEntries_cons.mp same
      rw [Keyed.get?_cons, Keyed.get?_cons]
      by_cases here : key = k
      · rw [if_pos here, if_pos here]
        exact Or.inr ⟨_, _, rfl, rfl, first⟩
      · rw [if_neg here, if_neg here]
        exact ih rest

theorem put_same {as bs : List (String × Value)} (same : sameEntries as bs = true) (key : String)
    {a b : Value} (values : a.same b = true) :
    sameEntries (Keyed.put key a as) (Keyed.put key b bs) = true := by
  induction as generalizing bs with
  | nil =>
    cases bs with
    | nil => exact sameEntries_cons.mpr ⟨rfl, values, rfl⟩
    | cons head bs => cases same
  | cons head as ih =>
    cases bs with
    | nil => cases same
    | cons other bs =>
      obtain ⟨k, v⟩ := head
      obtain ⟨k', w⟩ := other
      obtain ⟨rfl, first, rest⟩ := sameEntries_cons.mp same
      rw [Keyed.put, Keyed.put]
      split
      · exact sameEntries_cons.mpr ⟨rfl, values, same⟩
      · split
        · exact sameEntries_cons.mpr ⟨rfl, values, rest⟩
        · exact sameEntries_cons.mpr ⟨rfl, first, ih rest⟩

theorem erase_same {as bs : List (String × Value)} (same : sameEntries as bs = true) (key : String) :
    sameEntries (Keyed.erase key as) (Keyed.erase key bs) = true := by
  induction as generalizing bs with
  | nil =>
    cases bs with
    | nil => rfl
    | cons head bs => cases same
  | cons head as ih =>
    cases bs with
    | nil => cases same
    | cons other bs =>
      obtain ⟨k, v⟩ := head
      obtain ⟨k', w⟩ := other
      obtain ⟨rfl, first, rest⟩ := sameEntries_cons.mp same
      simp only [Keyed.erase, List.filter_cons] at ih ⊢
      split
      · exact sameEntries_cons.mpr ⟨rfl, first, ih rest⟩
      · exact ih rest

end Value

namespace StateMap

variable {m m' : StateMap Value}

theorem patchKey_same (entries : Value.sameEntries m'.entries m.entries = true)
    {as bs : List (String × Value)} (same : Value.sameEntries as bs = true) (change : String × EntryState) :
    Value.sameEntries (m'.patchKey as change) (m.patchKey bs change) = true := by
  obtain ⟨key, state⟩ := change
  cases state with
  | updated =>
    rw [patchKey, patchKey]
    rcases Value.get?_same entries key with ⟨absent', absent⟩ | ⟨a, b, found', found, values⟩
    · rw [get?, absent', get?, absent]
      exact same
    · rw [get?, found', get?, found]
      exact Value.put_same same key values
  | deleted => exact Value.erase_same same key
  | unchanged => exact same

/-- Maps with the same states and the same entries patch alike. -/
theorem patch_same (states : m'.states = m.states) (entries : Value.sameEntries m'.entries m.entries = true)
    {as bs : List (String × Value)} (same : Value.sameEntries as bs = true) :
    Value.sameEntries (m'.patch as) (m.patch bs) = true := by
  rw [patch, patch, states]
  generalize m.states = changes
  induction changes generalizing as bs with
  | nil => exact same
  | cons change rest ih => exact ih (patchKey_same entries same change)

/-- A map that is the same as a tracked one, with its states, tells as much. -/
theorem Tracks.patch_same {base : StateMap Value} (tracks : base.Tracks m)
    (sorted : Keyed.Sorted base.entries)
    (states : m'.states = m.states) (entries : Value.sameEntries m'.entries m.entries = true) :
    Value.sameEntries (m'.patch base.entries) m.entries = true := by
  have old : Value.sameEntries base.entries base.entries = true :=
    Value.sameEntries_refl fun entry _ => Value.same_refl entry.2
  have told := StateMap.patch_same states entries old
  rwa [tracks.patch_eq sorted] at told

end StateMap

end TrackedRecord
