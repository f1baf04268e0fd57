import TrackedRecord.Proofs.Value.WellFormed

/-!
# Partial records

What a selection of fields leaves of a record.
-/

namespace TrackedRecord

theorem Layout.get_selectAll (layout : Layout) (i : Nat) :
    layout.selectAll.get i = decide (i < layout.fieldCount) := by
  have formed := FieldBits.new_wellFormed layout.fieldCount
  by_cases inside : i < layout.fieldCount
  · rw [selectAll, formed.get_setAll inside, decide_eq_true inside]
  · have len : layout.selectAll.len = layout.fieldCount := formed.setAll.2
    rw [FieldBits.get_of_le (len ▸ Nat.not_lt.mp inside), decide_eq_false inside]

namespace Record

variable {registry : Registry} {r : Record Value}

theorem Shaped.restrictTo (shaped : r.Shaped registry) (selection : FieldBits) :
    (r.restrictTo selection).Shaped registry := by
  obtain ⟨formed, len, _⟩ := FieldBits.foldl_unset shaped.readable
    ((List.range r.slots.length).filter fun index => !selection.get index)
  exact ⟨shaped.layout, shaped.slots, shaped.dirty, shaped.dirtyLen, formed, len.trans shaped.readableLen⟩

/-- Only fields that were readable and are selected stay so. -/
theorem Fitted.isReadable_restrictTo (fitted : r.Fitted) (selection : FieldBits) (i : Nat) :
    (r.restrictTo selection).isReadable i = (r.isReadable i && selection.get i) := by
  obtain ⟨_, _, get⟩ := FieldBits.foldl_unset fitted.readable
    ((List.range r.slots.length).filter fun index => !selection.get index)
  refine (get i).trans ?_
  change (r.isReadable i && _) = _
  cases isReadable : r.isReadable i with
  | false => rfl
  | true =>
    have inside : i < r.slots.length := by
      rw [fitted.slots, ← fitted.readableLen]
      exact FieldBits.lt_of_get isReadable
    cases selected : selection.get i <;> simp [inside, selected]

theorem Shaped.isReadable_restrictTo (shaped : r.Shaped registry) (selection : FieldBits) (i : Nat) :
    (r.restrictTo selection).isReadable i = (r.isReadable i && selection.get i) :=
  shaped.fitted.isReadable_restrictTo selection i

theorem Fitted.ones_restrictTo (fitted : r.Fitted) (selection : FieldBits) :
    (r.restrictTo selection).readable.ones = r.readable.ones.filter selection.get := by
  obtain ⟨_, len, _⟩ := FieldBits.foldl_unset fitted.readable
    ((List.range r.slots.length).filter fun index => !selection.get index)
  unfold FieldBits.ones
  rw [show (r.restrictTo selection).readable.len = r.readable.len from len, List.filter_filter]
  refine List.filter_congr fun i _ => ?_
  rw [Bool.and_comm]
  exact fitted.isReadable_restrictTo selection i

theorem WellFormed.restrictTo (formed : r.WellFormed registry) (selection : FieldBits) :
    (r.restrictTo selection).WellFormed registry :=
  ⟨formed.1.restrictTo selection, formed.2⟩

/-! ### Slots of another record -/

theorem foldlM_takeFrom_fault_iff {source : Record Value} {indices : List Nat} :
    (∃ index count, indices.foldlM (takeFrom source) r = .error (.outOfRange index count)) ↔
      ∃ i ∈ indices, source.slots.length ≤ i := by
  induction indices generalizing r with
  | nil =>
    refine ⟨?_, fun ⟨_, member, _⟩ => nomatch member⟩
    rintro ⟨_, _, ⟨⟩⟩
  | cons i rest ih =>
    rw [List.foldlM_cons, takeFrom]
    by_cases inside : i < source.slots.length
    · rw [List.getElem?_eq_getElem inside]
      refine ih.trans ⟨fun ⟨j, later, outside⟩ => ⟨j, List.mem_cons_of_mem i later, outside⟩, ?_⟩
      rintro ⟨j, member, outside⟩
      exact ⟨j, (List.mem_cons.mp member).resolve_left (by omega), outside⟩
    · rw [List.getElem?_eq_none (Nat.not_lt.mp inside)]
      exact iff_of_true ⟨_, _, rfl⟩ ⟨i, List.mem_cons_self, Nat.not_lt.mp inside⟩

/-- A selected slot that the record has and the other record of its type lacks. -/
theorem Fitted.materializeFrom_fault_iff {source : Record Value} (fitted : r.Fitted) (other : source.Fitted)
    (same : source.typeName = r.typeName) (selection : FieldBits) :
    (∃ index count, r.materializeFrom source selection = .error (.outOfRange index count)) ↔
      ∃ i, selection.get i = true ∧ source.layout.fieldCount ≤ i ∧ i < r.layout.fieldCount := by
  rw [materializeFrom, if_neg (not_not_intro same), foldlM_takeFrom_fault_iff, fitted.slots, other.slots]
  refine exists_congr fun i => ?_
  rw [List.mem_filter, FieldBits.mem_ones, decide_eq_true_eq, and_assoc, and_comm (a := i < _)]

end Record

end TrackedRecord
