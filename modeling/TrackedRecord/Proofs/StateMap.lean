import TrackedRecord.Proofs.Keyed
import TrackedRecord.StateMap

/-!
# What entry states tell

From a map without states on, the states say how the entries have changed: an updated key is visible, a
deleted one is not, and a key without a state is as it was. So the changed entries alone, written into the
old ones, give the new ones (`patch_eq`).
-/

namespace TrackedRecord.StateMap

variable {α : Type} {base m : StateMap α}

/-- How `m` differs from `base` can be told from the states of `m`. -/
structure Tracks (base m : StateMap α) : Prop where
  updated : ∀ key, Keyed.get? key m.states = some .updated → (m.get? key).isSome
  deleted : ∀ key, Keyed.get? key m.states = some .deleted → m.get? key = none
  untouched : ∀ key, Keyed.get? key m.states = none → m.get? key = base.get? key
  changes : ∀ key, Keyed.get? key m.states ≠ some .unchanged
  sorted : Keyed.Sorted m.entries
  distinct : Keyed.Sorted m.states

theorem Tracks.refl (sorted : Keyed.Sorted base.entries) (stateless : base.states = []) :
    base.Tracks base := by
  have absent (key : String) : Keyed.get? key base.states = none := by
    rw [stateless]
    rfl
  constructor
  case untouched => exact fun _ _ => rfl
  case sorted => exact sorted
  case distinct => exact stateless ▸ List.Pairwise.nil
  all_goals
    intro key
    rw [absent]
    exact nofun

/-! ### Changes of entries -/

theorem get?_put (key other : String) (value : α) :
    (m.put key value).get? other = if other = key then some value else m.get? other :=
  Keyed.get?_put key other value m.entries

theorem get?_remove (key other : String) :
    (m.remove key).get? other = if other = key then none else m.get? other :=
  Keyed.get?_erase key other m.entries

theorem state_put (key other : String) (value : α) :
    Keyed.get? other (m.put key value).states =
      if other = key then some .updated else Keyed.get? other m.states :=
  Keyed.get?_put key other EntryState.updated m.states

theorem state_remove (key other : String) :
    Keyed.get? other (m.remove key).states =
      if other = key then some .deleted else Keyed.get? other m.states :=
  Keyed.get?_put key other EntryState.deleted m.states

/-- Clearing leaves the states of keys that were not visible. -/
theorem state_clear (key : String) :
    Keyed.get? key m.clear.states =
      if (m.get? key).isSome then some .deleted else Keyed.get? key m.states := by
  refine (Keyed.get?_foldl_put m.keys EntryState.deleted m.states key).trans ?_
  exact ite_congr (propext Keyed.mem_keys_iff) (fun _ => rfl) fun _ => rfl

theorem Tracks.put (tracks : base.Tracks m) (key : String) (value : α) : base.Tracks (m.put key value) := by
  constructor
  case sorted => exact Keyed.put_sorted tracks.sorted
  case distinct => exact Keyed.put_sorted tracks.distinct
  all_goals
    intro other
    simp only [state_put, get?_put]
    split
  case updated.isTrue => exact fun _ => rfl
  case updated.isFalse => exact tracks.updated other
  case deleted.isFalse => exact tracks.deleted other
  case untouched.isFalse => exact tracks.untouched other
  case changes.isFalse => exact tracks.changes other
  all_goals exact nofun

theorem Tracks.remove (tracks : base.Tracks m) (key : String) : base.Tracks (m.remove key) := by
  constructor
  case sorted => exact Keyed.erase_sorted tracks.sorted
  case distinct => exact Keyed.put_sorted tracks.distinct
  all_goals
    intro other
    simp only [state_remove, get?_remove]
    split
  case updated.isFalse => exact tracks.updated other
  case deleted.isTrue => exact fun _ => rfl
  case deleted.isFalse => exact tracks.deleted other
  case untouched.isFalse => exact tracks.untouched other
  case changes.isFalse => exact tracks.changes other
  all_goals exact nofun

theorem Tracks.clear (tracks : base.Tracks m) : base.Tracks m.clear := by
  constructor
  case sorted => exact List.Pairwise.nil
  case distinct => exact Keyed.foldl_put_sorted tracks.distinct
  all_goals
    intro key
    rw [state_clear]
    split
  case deleted.isTrue | deleted.isFalse => exact fun _ => rfl
  case updated.isFalse hidden => exact fun updated => absurd (tracks.updated key updated) hidden
  case untouched.isFalse hidden =>
    intro untouched
    rw [← tracks.untouched key untouched]
    exact (Option.not_isSome_iff_eq_none.mp hidden).symm
  case changes.isFalse => exact tracks.changes key
  all_goals exact nofun

/-! ### Patches -/

/-- The entries after what the state of one key tells of `m`. -/
def patchKey (m : StateMap α) (entries : List (String × α)) : String × EntryState → List (String × α)
  | (key, .updated) => (m.get? key).elim entries fun value => Keyed.put key value entries
  | (key, .deleted) => Keyed.erase key entries
  | (_, .unchanged) => entries

/-- The entries with the updated keys of `m` written and its deleted keys removed. -/
def patch (m : StateMap α) (entries : List (String × α)) : List (String × α) :=
  m.states.foldl m.patchKey entries

theorem get?_patchKey (entries : List (String × α)) (key other : String) (state : EntryState) :
    Keyed.get? other (m.patchKey entries (key, state)) =
      if other = key then
        match state with
        | .updated => (m.get? key).or (Keyed.get? key entries)
        | .deleted => none
        | .unchanged => Keyed.get? key entries
      else Keyed.get? other entries := by
  cases state with
  | updated =>
    cases found : m.get? key with
    | none =>
      rw [patchKey, found]
      split
      · subst_vars
        rfl
      · rfl
    | some value =>
      rw [patchKey, found]
      exact Keyed.get?_put key other value entries
  | deleted => exact Keyed.get?_erase key other entries
  | unchanged =>
    rw [patchKey]
    split
    · subst_vars
      rfl
    · rfl

theorem patchKey_sorted {entries : List (String × α)} (sorted : Keyed.Sorted entries)
    (change : String × EntryState) : Keyed.Sorted (m.patchKey entries change) := by
  obtain ⟨key, state⟩ := change
  cases state with
  | updated =>
    rw [patchKey]
    cases m.get? key with
    | none => exact sorted
    | some value => exact Keyed.put_sorted sorted
  | deleted => exact Keyed.erase_sorted sorted
  | unchanged => exact sorted

theorem foldl_patchKey_sorted (changes : List (String × EntryState)) {entries : List (String × α)}
    (sorted : Keyed.Sorted entries) : Keyed.Sorted (changes.foldl m.patchKey entries) := by
  induction changes generalizing entries with
  | nil => exact sorted
  | cons change rest ih => exact ih (patchKey_sorted sorted change)

/-- With one state for each key, what a key finds in the end is decided by its own state. -/
theorem get?_foldl_patchKey {changes : List (String × EntryState)} (distinct : Keyed.Sorted changes)
    (entries : List (String × α)) (key : String) :
    Keyed.get? key (changes.foldl m.patchKey entries) =
      match Keyed.get? key changes with
      | some .updated => (m.get? key).or (Keyed.get? key entries)
      | some .deleted => none
      | _ => Keyed.get? key entries := by
  induction changes generalizing entries with
  | nil => rfl
  | cons change rest ih =>
    obtain ⟨k, state⟩ := change
    rw [List.foldl_cons, ih (List.pairwise_cons.mp distinct).2, Keyed.get?_cons, get?_patchKey]
    by_cases here : key = k
    · subst here
      rw [distinct.get?_tail, if_pos rfl, if_pos rfl]
      cases state <;> rfl
    · rw [if_neg here, if_neg here]

/-- The changed entries of a tracked map, written into the old ones, give the new ones. -/
theorem Tracks.patch_eq (tracks : base.Tracks m) (sorted : Keyed.Sorted base.entries) :
    m.patch base.entries = m.entries := by
  apply Keyed.ext (foldl_patchKey_sorted m.states sorted) tracks.sorted
  intro key
  change _ = m.get? key
  rw [get?_foldl_patchKey tracks.distinct]
  cases state : Keyed.get? key m.states with
  | none => exact (tracks.untouched key state).symm
  | some change =>
    cases change with
    | unchanged => exact absurd state (tracks.changes key)
    | updated =>
      obtain ⟨value, found⟩ := Option.isSome_iff_exists.mp (tracks.updated key state)
      rw [found]
      rfl
    | deleted => exact (tracks.deleted key state).symm

/-! ### Maps that calls make -/

/-- The maps that come of stored entries when some are put, removed or cleared. -/
inductive Produced : StateMap α → Prop where
  | loaded (entries : List (String × α)) : Produced (ofList entries)
  | put {m : StateMap α} (produced : Produced m) (key : String) (value : α) : Produced (m.put key value)
  | remove {m : StateMap α} (produced : Produced m) (key : String) : Produced (m.remove key)
  | clear {m : StateMap α} (produced : Produced m) : Produced m.clear

/-- What the states say of keys is so: updated keys are visible, deleted ones are not. -/
structure Agrees (m : StateMap α) : Prop where
  updated : ∀ key, m.state? key = some .updated → (m.get? key).isSome
  deleted : ∀ key, m.state? key = some .deleted → m.get? key = none

theorem state?_eq_some_iff (m : StateMap α) (key : String) (state : EntryState) (changed : state ≠ .unchanged) :
    m.state? key = some state ↔ Keyed.get? key m.states = some state := by
  unfold state?
  cases Keyed.get? key m.states with
  | some other => rfl
  | none =>
    rw [Option.none_or]
    split
    · simpa using changed.symm
    · rfl

theorem agrees_iff : m.Agrees ↔
    (∀ key, Keyed.get? key m.states = some .updated → (m.get? key).isSome) ∧
      ∀ key, Keyed.get? key m.states = some .deleted → m.get? key = none := by
  have updated (key : String) := m.state?_eq_some_iff key .updated nofun
  have deleted (key : String) := m.state?_eq_some_iff key .deleted nofun
  simp only [← updated, ← deleted]
  exact ⟨fun agrees => ⟨agrees.updated, agrees.deleted⟩, fun both => ⟨both.1, both.2⟩⟩

theorem ofList_eq (entries : List (String × α)) : ofList entries = ⟨Keyed.ofList entries, []⟩ := by
  have load : ∀ start : StateMap α, entries.foldl (fun m entry => m.load entry.1 entry.2) start =
      ⟨entries.foldl (fun all entry => Keyed.put entry.1 entry.2 all) start.entries, start.states⟩ := by
    induction entries with
    | nil => exact fun _ => rfl
    | cons entry rest ih => exact fun start => ih (start.load entry.1 entry.2)
  exact load empty

theorem Produced.tracks (produced : m.Produced) : ∃ base : StateMap α, base.Tracks m := by
  induction produced with
  | loaded entries =>
    rw [ofList_eq]
    exact ⟨_, Tracks.refl (Keyed.sorted_ofList entries) rfl⟩
  | put _ key value ih =>
    obtain ⟨base, tracks⟩ := ih
    exact ⟨base, tracks.put key value⟩
  | remove _ key ih =>
    obtain ⟨base, tracks⟩ := ih
    exact ⟨base, tracks.remove key⟩
  | clear _ ih =>
    obtain ⟨base, tracks⟩ := ih
    exact ⟨base, tracks.clear⟩

/-- The call that gives a key its state and leaves the entries of `m`. -/
def retell (m : StateMap α) (made : StateMap α) : String × EntryState → StateMap α
  | (key, .updated) => (m.get? key).elim made fun value => made.put key value
  | (key, .deleted) => made.remove key
  | (_, .unchanged) => made

/-- States that agree with the entries are told again one by one. -/
theorem foldl_retell (sorted : Keyed.Sorted m.entries) {states : List (String × EntryState)}
    (updated : ∀ entry ∈ states, entry.2 = .updated → (m.get? entry.1).isSome)
    (deleted : ∀ entry ∈ states, entry.2 = .deleted → m.get? entry.1 = none)
    (changes : ∀ entry ∈ states, entry.2 ≠ .unchanged) (told : List (String × EntryState)) :
    states.foldl m.retell ⟨m.entries, told⟩ =
      ⟨m.entries, states.foldl (fun all (key, state) => Keyed.put key state all) told⟩ := by
  induction states generalizing told with
  | nil => rfl
  | cons entry rest ih =>
    rw [List.forall_mem_cons] at updated deleted changes
    obtain ⟨key, state⟩ := entry
    have step : m.retell ⟨m.entries, told⟩ (key, state) = ⟨m.entries, Keyed.put key state told⟩ := by
      cases state with
      | unchanged => exact absurd rfl changes.1
      | updated =>
        obtain ⟨value, found⟩ := Option.isSome_iff_exists.mp (updated.1 rfl)
        have same : Keyed.put key value m.entries = m.entries := Keyed.put_found sorted found
        rw [retell, found, Option.elim_some, put, same]
      | deleted =>
        have same : Keyed.erase key m.entries = m.entries := Keyed.erase_absent (deleted.1 rfl)
        rw [retell, remove, same]
    rw [List.foldl_cons, step, ih updated.2 deleted.2 changes.2]
    rfl

theorem Produced.foldl_retell {made : StateMap α} (produced : made.Produced)
    (states : List (String × EntryState)) : (states.foldl m.retell made).Produced := by
  induction states generalizing made with
  | nil => exact produced
  | cons entry rest ih =>
    apply ih
    obtain ⟨key, state⟩ := entry
    cases state with
    | unchanged => exact produced
    | deleted => exact produced.remove key
    | updated =>
      rw [retell]
      cases m.get? key with
      | none => exact produced
      | some value => exact produced.put key value

/-- Calls can make a map if its states agree with its entries and all of them tell of a change. -/
theorem produced_iff (sorted : Keyed.Sorted m.entries) (distinct : Keyed.Sorted m.states) :
    m.Produced ↔ m.Agrees ∧ ∀ key, Keyed.get? key m.states ≠ some .unchanged := by
  constructor
  · intro produced
    obtain ⟨base, tracks⟩ := produced.tracks
    exact ⟨agrees_iff.mpr ⟨tracks.updated, tracks.deleted⟩, tracks.changes⟩
  · rintro ⟨agrees, changes⟩
    obtain ⟨updated, deleted⟩ := agrees_iff.mp agrees
    have told {entry} (member : entry ∈ m.states) : Keyed.get? entry.1 m.states = some entry.2 :=
      distinct.get?_mem member
    have same : m.states.foldl m.retell (ofList m.entries) = m := by
      rw [ofList_eq, Keyed.ofList_sorted sorted]
      refine (foldl_retell sorted ?_ ?_ ?_ []).trans ?_
      · exact fun entry member state => updated entry.1 (by rw [told member, state])
      · exact fun entry member state => deleted entry.1 (by rw [told member, state])
      · exact fun entry member state => changes entry.1 (by rw [told member, state])
      · exact congrArg (StateMap.mk m.entries) (Keyed.ofList_sorted distinct)
    rw [← same]
    exact (Produced.loaded m.entries).foldl_retell m.states

end TrackedRecord.StateMap
