import TrackedRecord.Proofs.Record.Changes
import TrackedRecord.Proofs.Value.Equality

/-!
# Changes as a delta

The dirty fields of a record, and in map fields the updated and the deleted keys, tell all that calls have
changed since the record was clean: written over the old record they give the new one.
-/

namespace TrackedRecord

/-- Whether all calls on a field work on its entries. -/
def entryWise (changes : List Change) (i : Nat) : Bool :=
  changes.all fun change => change.onEntries || change.index != i

theorem entryWise_index {changes : List Change} {change : Change} (member : change ∈ changes)
    (whole : change.onEntries = false) : entryWise changes change.index = false := by
  rw [entryWise, List.all_eq_false]
  exact ⟨change, member, by simp [whole]⟩

namespace Change

theorem Fits.map {change : Change} {field : Field} (fits : change.Fits field)
    (onEntries : change.onEntries = true) : field.kind = .map := by
  cases change with
  | put => exact fits.1
  | remove | clear => exact fits
  | set | append => cases onEntries

/-- A call on entries leaves a map that tells what the call did. -/
theorem result_tracks {change : Change} {base : StateMap Value} {old : Value}
    (onEntries : change.onEntries = true) (tracks : base.Tracks old.mapOrEmpty) :
    ∃ m, change.result old = .map m ∧ base.Tracks m := by
  cases change with
  | put index key value => exact ⟨_, rfl, tracks.put key value⟩
  | remove index key => exact ⟨_, rfl, tracks.remove key⟩
  | clear index => exact ⟨_, rfl, tracks.clear⟩
  | set | append => cases onEntries

end Change

namespace Record

/-- No field is dirty and no entry has a state. -/
structure Clean (r : Record Value) : Prop where
  dirty : ∀ i, r.isDirty i = false
  states : ∀ i, (r.slot i).mapOrEmpty.states = []

theorem clearState_clean (r : Record Value) : r.clearState.Clean where
  dirty i := FieldBits.get_clearAll r.dirty i
  states i := by
    rw [slot_clearState]
    cases r.slot i <;> rfl

/-- How `r` differs from `base` can be told from the state of `r`, for some map fields by their entries. -/
structure Tracks (entryWise : Nat → Bool) (base r : Record Value) : Prop where
  layout : r.layout = base.layout
  slots : r.slots.length = base.slots.length
  kept : ∀ i, r.isDirty i = false → r.slot i = base.slot i
  shown : ∀ i, r.isDirty i = true → r.isReadable i = true
  entries : ∀ i, entryWise i = true → (base.slot i).mapOrEmpty.Tracks (r.slot i).mapOrEmpty
  map : ∀ i, entryWise i = true → r.isDirty i = true →
    r.slot i = .map (r.slot i).mapOrEmpty ∧ ∃ field, r.layout.field? i = some field ∧ field.kind = .map

variable {entryWise : Nat → Bool} {base r r' : Record Value}

theorem Tracks.refl (clean : base.Clean) (sorted : ∀ i, Keyed.Sorted (base.slot i).mapOrEmpty.entries) :
    Tracks entryWise base base where
  layout := rfl
  slots := rfl
  kept _ _ := rfl
  shown i dirty := absurd dirty (clean.dirty i ▸ Bool.false_ne_true)
  entries i _ := .refl (sorted i) (clean.states i)
  map i _ dirty := absurd dirty (clean.dirty i ▸ Bool.false_ne_true)

theorem Tracks.step {change : Change} (tracks : Tracks entryWise base r) (does : change.Does r r')
    (only : change.onEntries = false → entryWise change.index = false) : Tracks entryWise base r' := by
  -- a field that is known by its entries is changed by them alone
  have onEntries (chosen : entryWise change.index = true) : change.onEntries = true :=
    Bool.of_not_eq_false fun whole => Bool.false_ne_true ((only whole).symm.trans chosen)
  refine ⟨does.layout.trans tracks.layout, does.slots.trans tracks.slots, fun i => ?_, fun i => ?_,
    fun i chosen => ?_, fun i chosen => ?_⟩
  · rw [does.dirty, does.slot, Bool.or_eq_false_iff, decide_eq_false_iff_not]
    rintro ⟨clean, elsewhere⟩
    rw [if_neg (Ne.symm elsewhere), tracks.kept i clean]
  · rw [does.dirty, does.readable, Bool.or_eq_true, Bool.or_eq_true]
    exact Or.imp_left (tracks.shown i)
  · rw [does.slot]
    split
    · subst_vars
      obtain ⟨m, made, told⟩ := Change.result_tracks (onEntries chosen) (tracks.entries _ chosen)
      rw [made]
      exact told
    · exact tracks.entries i chosen
  · rw [does.dirty, does.slot, does.layout, Bool.or_eq_true, decide_eq_true_iff]
    by_cases here : i = change.index
    · subst here
      intro _
      obtain ⟨m, made, _⟩ := Change.result_tracks (onEntries chosen) (tracks.entries _ chosen)
      obtain ⟨field, known, fits⟩ := does.fits
      rw [if_pos rfl, made]
      exact ⟨rfl, field, known, fits.map (onEntries chosen)⟩
    · rw [if_neg here]
      exact fun dirty => tracks.map i chosen (dirty.resolve_right (Ne.symm here))

/-- Whatever calls are made on a clean record, its state tells what they did. -/
theorem changed_tracks {registry : Registry} {changes : List Change} (shaped : base.Shaped registry)
    (sorted : ∀ i, Keyed.Sorted (base.slot i).mapOrEmpty.entries) (clean : base.Clean)
    (run : base.changed changes = .ok r) : Tracks (TrackedRecord.entryWise changes) base r := by
  refine changed_induction shaped run (Tracks.refl clean sorted) ?_
  exact fun change member s s' does tracks => tracks.step does (entryWise_index member)

/-! ### Patches -/

/-- The record with the dirty fields of `changed`, and in chosen map fields only with the entries that have
changed. -/
def patched (base : Record Value) (entryWise : Nat → Bool) (changed : Record Value) : Record Value :=
  { base with
    slots := base.slots.mapIdx fun i old =>
      if changed.isDirty i then
        if entryWise i then .map ⟨(changed.slot i).mapOrEmpty.patch old.mapOrEmpty.entries, []⟩
        else changed.slot i
      else old }

theorem slot_patched {changed : Record Value} {i : Nat} (inside : i < base.slots.length) :
    (base.patched entryWise changed).slot i =
      if changed.isDirty i then
        if entryWise i then .map ⟨(changed.slot i).mapOrEmpty.patch (base.slot i).mapOrEmpty.entries, []⟩
        else changed.slot i
      else base.slot i := by
  simp only [slot, patched, List.getD_eq_getElem?_getD, List.getElem?_mapIdx]
  rw [List.getElem?_eq_getElem inside]
  rfl

/-- A record that shows the changed fields as `r` does is enough to make `r` out of the old record. -/
theorem Tracks.patched_same {shown : Record Value} (tracks : Tracks entryWise base r)
    (sorted : ∀ i, Keyed.Sorted (base.slot i).mapOrEmpty.entries)
    (dirty : ∀ i, shown.isDirty i = r.isDirty i)
    (slots : ∀ i, r.isDirty i = true → (shown.slot i).same (r.slot i) = true)
    (states : ∀ i field, r.layout.field? i = some field → field.kind = .map → r.isDirty i = true →
      (shown.slot i).mapOrEmpty.states = (r.slot i).mapOrEmpty.states) :
    (base.patched entryWise shown).same r = true := by
  have length : (base.patched entryWise shown).slots.length = r.slots.length :=
    List.length_mapIdx.trans tracks.slots.symm
  have each (i : Nat) : ((base.patched entryWise shown).slot i).same (r.slot i) = true := by
    by_cases inside : i < base.slots.length
    · rw [slot_patched inside, dirty]
      split
      · rename_i touched
        split
        · rename_i chosen
          obtain ⟨map, field, known, kind⟩ := tracks.map i chosen touched
          have same := slots i touched
          rw [map] at same ⊢
          obtain ⟨m, found, entries⟩ := Value.map_of_same same
          have table := states i field known kind touched
          rw [found] at table ⊢
          exact (tracks.entries i chosen).patch_same (sorted i) table entries
        · exact slots i touched
      · rename_i untouched
        rw [tracks.kept i (Bool.of_not_eq_true untouched)]
        exact Value.same_refl _
    · have beyond := Nat.not_lt.mp inside
      rw [slot_of_le (by rwa [length, tracks.slots]), slot_of_le (by rwa [tracks.slots])]
      rfl
  rw [same, typeName, typeName, tracks.layout, Value.sameAll_of_getD length each]
  exact Bool.and_eq_true_iff.mpr ⟨beq_self_eq_true _, rfl⟩

end Record

end TrackedRecord
