import TrackedRecord.Keyed

/-!
# Laws of lists sorted by key

Insertion keeps a list sorted, and a sorted list is what comes of inserting its pairs in order. A list
that holds a key has that key where `get?` finds it.
-/

namespace TrackedRecord.Keyed

variable {α : Type}

/-- Each key stands before every later one, so no key comes twice. -/
def Sorted (entries : List (String × α)) : Prop := entries.Pairwise fun a b => a.1 < b.1

theorem sorted_iff_keys {entries : List (String × α)} : Sorted entries ↔ (keys entries).Pairwise (· < ·) := by
  rw [Sorted, keys, List.pairwise_map]

theorem lt_of_not_lt_of_ne {a b : String} (notLess : ¬a < b) (different : a ≠ b) : b < a :=
  String.not_le.mp fun le => different (String.le_antisymm le (String.not_lt.mp notLess))

theorem mem_put {key : String} {value : α} {entries : List (String × α)} {entry : String × α}
    (member : entry ∈ put key value entries) : entry = (key, value) ∨ entry ∈ entries := by
  induction entries with
  | nil => simpa [put] using member
  | cons head rest ih =>
    obtain ⟨k, v⟩ := head
    simp only [put] at member
    split at member
    · exact List.mem_cons.mp member
    · split at member
      · rcases List.mem_cons.mp member with same | later
        · exact Or.inl same
        · exact Or.inr (List.mem_cons_of_mem _ later)
      · rcases List.mem_cons.mp member with same | later
        · exact Or.inr (List.mem_cons.mpr (Or.inl same))
        · exact (ih later).imp_right (List.mem_cons_of_mem _)

theorem put_sorted {key : String} {value : α} {entries : List (String × α)} (sorted : Sorted entries) :
    Sorted (put key value entries) := by
  induction entries with
  | nil => exact List.pairwise_singleton _ _
  | cons head rest ih =>
    obtain ⟨k, v⟩ := head
    obtain ⟨above, sortedRest⟩ := List.pairwise_cons.mp sorted
    simp only [put]
    split
    · rename_i less
      refine List.pairwise_cons.mpr ⟨?_, sorted⟩
      intro entry member
      rcases List.mem_cons.mp member with rfl | later
      · exact less
      · exact String.lt_trans less (above entry later)
    · split
      · rename_i same
        subst same
        exact List.pairwise_cons.mpr ⟨above, sortedRest⟩
      · rename_i notLess different
        refine List.pairwise_cons.mpr ⟨?_, ih sortedRest⟩
        intro entry member
        rcases mem_put member with rfl | later
        · exact lt_of_not_lt_of_ne notLess different
        · exact above entry later

/-- A key above all others goes to the end. -/
theorem put_last {key : String} {value : α} {entries : List (String × α)}
    (above : ∀ entry ∈ entries, entry.1 < key) : put key value entries = entries ++ [(key, value)] := by
  induction entries with
  | nil => rfl
  | cons head rest ih =>
    obtain ⟨k, v⟩ := head
    have less : k < key := above (k, v) List.mem_cons_self
    have different : key ≠ k := by
      intro same
      exact String.lt_irrefl k (same ▸ less)
    rw [put, if_neg (String.lt_asymm less), if_neg different,
      ih fun entry later => above entry (List.mem_cons_of_mem _ later)]
    rfl

theorem Sorted.above {before rest : List (String × α)} {key : String} {value : α}
    (sorted : Sorted (before ++ (key, value) :: rest)) : ∀ entry ∈ before, entry.1 < key :=
  fun entry member => (List.pairwise_append.mp sorted).2.2 entry member (key, value) List.mem_cons_self

/-- Inserting the pairs of a sorted list in order, behind those already there. -/
theorem foldl_put {before entries : List (String × α)} (sorted : Sorted (before ++ entries)) :
    entries.foldl (fun all (key, value) => put key value all) before = before ++ entries := by
  induction entries generalizing before with
  | nil => simp
  | cons head rest ih =>
    obtain ⟨key, value⟩ := head
    rw [List.foldl_cons]
    dsimp only
    rw [put_last sorted.above, ih (by simpa [Sorted] using sorted)]
    simp

theorem ofList_sorted {entries : List (String × α)} (sorted : Sorted entries) : ofList entries = entries :=
  foldl_put (show Sorted ([] ++ entries) from sorted)

theorem get?_eq_none_iff {key : String} {entries : List (String × α)} :
    get? key entries = none ↔ ∀ entry ∈ entries, entry.1 ≠ key := by
  simp only [get?, List.lookup_eq_none_iff, bne_iff_ne, ne_eq]
  constructor <;> intro absent entry member same <;> exact absent entry member same.symm

theorem contains_eq_false_iff {key : String} {entries : List (String × α)} :
    contains key entries = false ↔ ∀ entry ∈ entries, entry.1 ≠ key := by
  rw [contains, Option.isSome_eq_false_iff, Option.isNone_iff_eq_none, get?_eq_none_iff]

theorem contains_of_above {key : String} {entries : List (String × α)}
    (above : ∀ entry ∈ entries, entry.1 < key) :
    contains key entries = false :=
  contains_eq_false_iff.mpr fun entry member same => String.lt_irrefl key (same ▸ above entry member)

theorem mem_of_get? {key : String} {value : α} {entries : List (String × α)}
    (found : get? key entries = some value) : (key, value) ∈ entries := by
  induction entries with
  | nil => cases found
  | cons head rest ih =>
    obtain ⟨k, v⟩ := head
    rw [get?, List.lookup_cons] at found
    split at found
    · rename_i same
      obtain rfl : key = k := by simpa using same
      obtain rfl := Option.some.inj found
      exact List.mem_cons_self
    · exact List.mem_cons_of_mem _ (ih found)

/-- A key that is new makes room for one more pair. -/
theorem put_perm {key : String} {value : α} {entries : List (String × α)}
    (absent : ∀ entry ∈ entries, entry.1 ≠ key) : (put key value entries).Perm ((key, value) :: entries) := by
  induction entries with
  | nil => exact List.Perm.refl _
  | cons head rest ih =>
    obtain ⟨k, v⟩ := head
    have different : key ≠ k := fun same => absent (k, v) List.mem_cons_self same.symm
    simp only [put]
    split
    · exact List.Perm.refl _
    · exact ((ih fun entry later => absent entry (List.mem_cons_of_mem _ later)).cons _).trans
        (List.Perm.swap _ _ _)

/-- With distinct keys nothing is lost of the pairs. -/
theorem foldl_put_perm {before pairs : List (String × α)}
    (distinct : (keys before ++ keys pairs).Nodup) :
    (pairs.foldl (fun entries (key, value) => put key value entries) before).Perm (before ++ pairs) := by
  induction pairs generalizing before with
  | nil =>
    rw [List.append_nil]
    exact List.Perm.refl _
  | cons head rest ih =>
    obtain ⟨key, value⟩ := head
    obtain ⟨left, right, apart⟩ := List.nodup_append.mp distinct
    have absent : ∀ entry ∈ before, entry.1 ≠ key := fun entry member =>
      apart _ (List.mem_map_of_mem member) _ List.mem_cons_self
    have placed : (put key value before).Perm ((key, value) :: before) := put_perm absent
    have middle : (before ++ (key, value) :: rest).Perm ((key, value) :: (before ++ rest)) := List.perm_middle
    refine ((ih ?_).trans (placed.append_right rest)).trans middle.symm
    have order : (keys (put key value before) ++ keys rest).Perm (keys before ++ keys ((key, value) :: rest)) := by
      refine ((placed.map Prod.fst).append_right _).trans ?_
      exact (List.perm_middle (a := key)).symm
    exact order.nodup_iff.mpr distinct

theorem ofList_perm {pairs : List (String × α)} (distinct : (keys pairs).Nodup) : (ofList pairs).Perm pairs :=
  foldl_put_perm (show (keys [] ++ keys pairs).Nodup from distinct)

/-- Names taken one after another, each new to the ones taken before it, are distinct. -/
theorem distinct_cons {name : String} {before rest : List String} (fresh : name ∉ before)
    (later : rest.Nodup ∧ ∀ other ∈ rest, other ∉ name :: before) :
    (name :: rest).Nodup ∧ ∀ other ∈ name :: rest, other ∉ before := by
  obtain ⟨distinct, others⟩ := later
  refine ⟨List.nodup_cons.mpr ⟨fun again => others name again List.mem_cons_self, distinct⟩, ?_⟩
  exact List.forall_mem_cons.mpr ⟨fresh, fun other inside known => others other inside (List.mem_cons_of_mem _ known)⟩

theorem key_ne {items : List α} {key : α → String} (distinct : (items.map key).Nodup) {i j : Nat}
    (inside : i < items.length) (before : j < i) : key items[j] ≠ key items[i] :=
  List.pairwise_iff_getElem.mp (List.pairwise_map.mp distinct) j i _ inside before

/-- Where no key comes twice, an item is the first with its key. -/
theorem findIdx?_key {items : List α} {key : α → String} (distinct : (items.map key).Nodup) {i : Nat} {item : α}
    (known : items[i]? = some item) : (items.findIdx? fun other => key other == key item) = some i := by
  obtain ⟨inside, rfl⟩ := List.getElem?_eq_some_iff.mp known
  rw [List.findIdx?_eq_some_iff_getElem]
  exact ⟨inside, beq_self_eq_true _, fun j before same => key_ne distinct inside before (eq_of_beq same)⟩

/-! ### Look-ups -/

theorem get?_cons (key other : String) (value : α) (entries : List (String × α)) :
    get? other ((key, value) :: entries) = if other = key then some value else get? other entries := by
  simp only [get?, List.lookup_cons]
  split <;> split <;> simp_all

theorem get?_erase (key other : String) (entries : List (String × α)) :
    get? other (erase key entries) = if other = key then none else get? other entries := by
  induction entries with
  | nil => simp [erase, get?]
  | cons head rest ih =>
    obtain ⟨k, v⟩ := head
    simp only [erase] at ih ⊢
    by_cases kept : k = key
    · subst kept
      rw [List.filter_cons_of_neg (by simp), ih, get?_cons]
      split <;> rfl
    · rw [List.filter_cons_of_pos (by simpa using kept), get?_cons, ih, get?_cons]
      split
      · subst_vars
        rw [if_neg kept]
      · rfl

theorem erase_sorted {key : String} {entries : List (String × α)} (sorted : Sorted entries) :
    Sorted (erase key entries) :=
  List.Pairwise.filter _ sorted

theorem mem_keys_iff {key : String} {entries : List (String × α)} :
    key ∈ keys entries ↔ (get? key entries).isSome := by
  constructor
  · intro member
    obtain ⟨entry, present, rfl⟩ := List.mem_map.mp member
    exact Option.isSome_iff_ne_none.mpr fun absent => get?_eq_none_iff.mp absent entry present rfl
  · intro found
    obtain ⟨value, found⟩ := Option.isSome_iff_exists.mp found
    exact List.mem_map.mpr ⟨_, mem_of_get? found, rfl⟩

/-- Writing one value for many keys. -/
theorem get?_foldl_put (keys : List String) (value : α) (entries : List (String × α)) (other : String) :
    get? other (keys.foldl (fun entries key => put key value entries) entries) =
      if other ∈ keys then some value else get? other entries := by
  induction keys generalizing entries with
  | nil => rw [List.foldl_nil, if_neg List.not_mem_nil]
  | cons key rest ih =>
    rw [List.foldl_cons, ih, get?_put]
    by_cases here : other = key
    · simp [here]
    · simp [here]

theorem foldl_put_sorted {keys : List String} {value : α} {entries : List (String × α)}
    (sorted : Sorted entries) :
    Sorted (keys.foldl (fun entries key => put key value entries) entries) := by
  induction keys generalizing entries with
  | nil => exact sorted
  | cons key rest ih => exact ih (put_sorted sorted)

/-- The first pair of a sorted list is all that is known of its key. -/
theorem Sorted.get?_tail {key : String} {value : α} {entries : List (String × α)}
    (sorted : Sorted ((key, value) :: entries)) : get? key entries = none :=
  get?_eq_none_iff.mpr fun entry member same =>
    String.lt_irrefl key (same ▸ (List.pairwise_cons.mp sorted).1 entry member)

theorem Sorted.get?_mem {entries : List (String × α)} (sorted : Sorted entries) {entry : String × α}
    (member : entry ∈ entries) : get? entry.1 entries = some entry.2 := by
  induction entries with
  | nil => cases member
  | cons head rest ih =>
    obtain ⟨above, sortedRest⟩ := List.pairwise_cons.mp sorted
    rw [get?_cons]
    rcases List.mem_cons.mp member with rfl | later
    · rw [if_pos rfl]
    · have different : entry.1 ≠ head.1 := fun same => String.lt_irrefl head.1 (same ▸ above entry later)
      rw [if_neg different, ih sortedRest later]

/-- Sorted lists are told apart by look-ups. -/
theorem ext {as bs : List (String × α)} (sortedA : Sorted as) (sortedB : Sorted bs)
    (same : ∀ key, get? key as = get? key bs) : as = bs := by
  induction as generalizing bs with
  | nil =>
    cases bs with
    | nil => rfl
    | cons head rest =>
      have found := same head.1
      rw [get?_cons, if_pos rfl] at found
      cases found
  | cons head as ih =>
    obtain ⟨key, value⟩ := head
    cases bs with
    | nil =>
      have found := same key
      rw [get?_cons, if_pos rfl] at found
      cases found
    | cons other bs =>
      obtain ⟨key', value'⟩ := other
      obtain ⟨aboveA, restA⟩ := List.pairwise_cons.mp sortedA
      obtain ⟨aboveB, restB⟩ := List.pairwise_cons.mp sortedB
      -- either head is found in the other list, and neither can stand behind the other
      have keys : key = key' := by
        by_cases different : key = key'
        · exact different
        have here := same key
        have there := same key'
        rw [get?_cons, if_pos rfl, get?_cons, if_neg different] at here
        rw [get?_cons, if_neg (Ne.symm different), get?_cons, if_pos rfl] at there
        have above := aboveB _ (mem_of_get? here.symm)
        have below := aboveA _ (mem_of_get? there)
        exact absurd above (String.lt_asymm below)
      subst keys
      have values := same key
      rw [get?_cons, if_pos rfl, get?_cons, if_pos rfl] at values
      obtain rfl := Option.some.inj values
      congr 1
      apply ih restA restB
      intro k
      by_cases here : k = key
      · rw [here, sortedA.get?_tail, sortedB.get?_tail]
      · have rest := same k
        rwa [get?_cons, if_neg here, get?_cons, if_neg here] at rest

/-- Whatever is written into a sorted list, it stays sorted. -/
theorem foldl_pairs_sorted {pairs entries : List (String × α)} (sorted : Sorted entries) :
    Sorted (pairs.foldl (fun entries (key, value) => put key value entries) entries) := by
  induction pairs generalizing entries with
  | nil => exact sorted
  | cons pair rest ih => exact ih (put_sorted sorted)

theorem sorted_ofList (pairs : List (String × α)) : Sorted (ofList pairs) :=
  foldl_pairs_sorted List.Pairwise.nil

theorem mem_foldl_pairs {pairs entries : List (String × α)} {entry : String × α}
    (member : entry ∈ pairs.foldl (fun entries (key, value) => put key value entries) entries) :
    entry ∈ pairs ∨ entry ∈ entries := by
  induction pairs generalizing entries with
  | nil => exact Or.inr member
  | cons pair rest ih =>
    rcases ih member with later | before
    · exact Or.inl (List.mem_cons_of_mem _ later)
    · rcases mem_put before with rfl | present
      · exact Or.inl List.mem_cons_self
      · exact Or.inr present

theorem mem_ofList {pairs : List (String × α)} {entry : String × α} (member : entry ∈ ofList pairs) : entry ∈ pairs :=
  (mem_foldl_pairs member).resolve_right List.not_mem_nil

/-- Writing what is there, and removing what is not, change nothing. -/
theorem put_found {key : String} {value : α} {entries : List (String × α)} (sorted : Sorted entries)
    (found : get? key entries = some value) : put key value entries = entries := by
  refine ext (put_sorted sorted) sorted fun other => ?_
  rw [get?_put]
  split
  · subst_vars
    exact found.symm
  · rfl

theorem erase_absent {key : String} {entries : List (String × α)} (absent : get? key entries = none) :
    erase key entries = entries :=
  List.filter_eq_self.mpr fun entry member => by simpa using get?_eq_none_iff.mp absent entry member

end TrackedRecord.Keyed
