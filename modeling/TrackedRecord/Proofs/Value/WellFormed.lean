import TrackedRecord.Proofs.FieldBits
import TrackedRecord.Proofs.Keyed
import TrackedRecord.Proofs.Value.Induction
import TrackedRecord.Proofs.Value.Parts
import TrackedRecord.Proofs.Wire.Number
import TrackedRecord.Registry

/-!
# Well-formed values

What the representation of a value promises: maps are sorted by key, counts and positions fit a word,
and every record inside is an instance of the registry, with a slot and two bits for each field of its
layout.
-/

namespace TrackedRecord

open Wire (wordBound)

structure StateMap.Shaped {α : Type} (m : StateMap α) : Prop where
  entries : Keyed.Sorted m.entries
  states : Keyed.Sorted m.states
  size : m.entries.length < wordBound
  stateCount : m.states.length < wordBound

structure Record.Shaped (registry : Registry) (r : Record Value) : Prop where
  layout : registry.get? r.typeName = some r.layout
  slots : r.slots.length = r.layout.fieldCount
  dirty : r.dirty.WellFormed
  dirtyLen : r.dirty.len = r.layout.fieldCount
  readable : r.readable.WellFormed
  readableLen : r.readable.len = r.layout.fieldCount

/-- A slot and two bits for each field of the record's own layout, whether or not a registry has it. -/
structure Record.Fitted (r : Record Value) : Prop where
  slots : r.slots.length = r.layout.fieldCount
  dirty : r.dirty.WellFormed
  dirtyLen : r.dirty.len = r.layout.fieldCount
  readable : r.readable.WellFormed
  readableLen : r.readable.len = r.layout.fieldCount

theorem Record.Shaped.fitted {registry : Registry} {r : Record Value} (shaped : r.Shaped registry) : r.Fitted :=
  ⟨shaped.slots, shaped.dirty, shaped.dirtyLen, shaped.readable, shaped.readableLen⟩

namespace Value

mutual

def WellFormed (registry : Registry) : Value → Prop
  | .enum ordinal => ordinal < wordBound
  | .record ⟨layout, slots, dirty, readable⟩ =>
    Record.Shaped registry ⟨layout, slots, dirty, readable⟩ ∧ AllWellFormed registry slots
  | .array items => items.length < wordBound ∧ AllWellFormed registry items
  | .map ⟨entries, states⟩ => StateMap.Shaped ⟨entries, states⟩ ∧ EntriesWellFormed registry entries
  | .union branch value => branch < wordBound ∧ WellFormed registry value
  | _ => True

def AllWellFormed (registry : Registry) : List Value → Prop
  | [] => True
  | value :: rest => WellFormed registry value ∧ AllWellFormed registry rest

def EntriesWellFormed (registry : Registry) : List (String × Value) → Prop
  | [] => True
  | (_, value) :: rest => WellFormed registry value ∧ EntriesWellFormed registry rest

end

attribute [local simp] WellFormed AllWellFormed EntriesWellFormed

theorem allWellFormed_iff {registry : Registry} {values : List Value} :
    AllWellFormed registry values ↔ ∀ value ∈ values, value.WellFormed registry := by
  induction values with
  | nil => simp
  | cons value rest ih => simp [ih]

theorem entriesWellFormed_iff {registry : Registry} {entries : List (String × Value)} :
    EntriesWellFormed registry entries ↔ ∀ entry ∈ entries, entry.2.WellFormed registry := by
  induction entries with
  | nil => simp
  | cons entry rest ih => simp [ih]

end Value

/-- An instance of a layout of the registry, with all that stands in its slots. -/
def Record.WellFormed (registry : Registry) (r : Record Value) : Prop :=
  r.Shaped registry ∧ ∀ slot ∈ r.slots, slot.WellFormed registry

def StateMap.WellFormed (registry : Registry) (m : StateMap Value) : Prop :=
  m.Shaped ∧ ∀ entry ∈ m.entries, entry.2.WellFormed registry

namespace Value

variable {registry : Registry}

@[simp] theorem wellFormed_record {r : Record Value} :
    (record r).WellFormed registry ↔ r.WellFormed registry := by
  rw [WellFormed, allWellFormed_iff, Record.WellFormed]

@[simp] theorem wellFormed_array {items : List Value} :
    (array items).WellFormed registry ↔
      items.length < wordBound ∧ ∀ item ∈ items, item.WellFormed registry := by
  rw [WellFormed, allWellFormed_iff]

@[simp] theorem wellFormed_map {m : StateMap Value} :
    (map m).WellFormed registry ↔ m.WellFormed registry := by
  rw [WellFormed, entriesWellFormed_iff, StateMap.WellFormed]

@[simp] theorem wellFormed_union {branch : Nat} {value : Value} :
    (union branch value).WellFormed registry ↔ branch < wordBound ∧ value.WellFormed registry := by
  rw [WellFormed]

@[simp] theorem wellFormed_null : null.WellFormed registry := trivial

theorem WellFormed.part {value part : Value} (formed : value.WellFormed registry)
    (part_of : part ∈ value.parts) : part.WellFormed registry := by
  cases value with
  | record r => exact (wellFormed_record.mp formed).2 part part_of
  | array items => exact (wellFormed_array.mp formed).2 part part_of
  | map m =>
    obtain ⟨entry, member, rfl⟩ := List.mem_map.mp part_of
    exact (wellFormed_map.mp formed).2 entry member
  | union branch value =>
    obtain rfl := List.mem_singleton.mp part_of
    exact (wellFormed_union.mp formed).2
  | _ => cases part_of

theorem WellFormed.fitted {value : Value} (formed : value.WellFormed registry) : value.Every Record.Fitted := by
  induction value using parts_induction with
  | step value ih =>
    refine (every_iff value).mpr ⟨?_, fun part part_of => ih part part_of (formed.part part_of)⟩
    rintro r rfl
    exact (wellFormed_record.mp formed).1.fitted

theorem mapOrEmpty_wellFormed {value : Value} (formed : value.WellFormed registry) :
    value.mapOrEmpty.WellFormed registry := by
  cases value with
  | map m => exact wellFormed_map.mp formed
  | _ => exact ⟨⟨List.Pairwise.nil, List.Pairwise.nil, Wire.wordBound_pos, Wire.wordBound_pos⟩,
    fun _ member => nomatch member⟩

theorem clearEntryStates_wellFormed {value : Value} (formed : value.WellFormed registry) :
    value.clearEntryStates.WellFormed registry := by
  cases value with
  | map m =>
    obtain ⟨⟨entries, _, size, _⟩, each⟩ := wellFormed_map.mp formed
    exact wellFormed_map.mpr ⟨⟨entries, List.Pairwise.nil, size, Wire.wordBound_pos⟩, each⟩
  | _ => exact formed

@[simp] theorem clearEntryStates_clearEntryStates (value : Value) :
    value.clearEntryStates.clearEntryStates = value.clearEntryStates := by
  cases value <;> rfl

end Value

namespace Record

variable {registry : Registry}

/-- An empty record of a layout of the registry. -/
theorem empty_wellFormed {layout : Layout} (known : registry.get? layout.fullName = some layout) :
    (empty layout).WellFormed registry := by
  refine ⟨⟨known, by simp [empty], FieldBits.new_wellFormed _, rfl, FieldBits.new_wellFormed _, rfl⟩, ?_⟩
  intro slot member
  rw [List.eq_of_mem_replicate member]
  exact Value.wellFormed_null

/-- Clearing twice is clearing once. -/
@[simp] theorem clearState_clearState (r : Record Value) : r.clearState.clearState = r.clearState := by
  simp [clearState, clearDirty, clearReadable, clearEntryStates, FieldBits.clearAll]

theorem clearState_slots (r : Record Value) : r.clearState.slots = r.slots.map Value.clearEntryStates := rfl

theorem WellFormed.clearState_length {r : Record Value} (formed : r.WellFormed registry) :
    r.clearState.slots.length = r.layout.fieldCount := by
  rw [clearState_slots, List.length_map, formed.1.slots]

theorem Shaped.clearState {r : Record Value} (shaped : r.Shaped registry) : r.clearState.Shaped registry :=
  ⟨shaped.layout, (List.length_map _).trans shaped.slots, shaped.dirty.clearAll, shaped.dirtyLen,
    shaped.readable.clearAll, shaped.readableLen⟩

theorem clearState_wellFormed {r : Record Value} (formed : r.WellFormed registry) :
    r.clearState.WellFormed registry := by
  obtain ⟨shaped, each⟩ := formed
  refine ⟨shaped.clearState, ?_⟩
  intro slot member
  obtain ⟨old, present, rfl⟩ := List.mem_map.mp member
  exact Value.clearEntryStates_wellFormed (each old present)

theorem slot_clearState (r : Record Value) (i : Nat) : r.clearState.slot i = (r.slot i).clearEntryStates := by
  rw [slot, clearState_slots, List.getD_eq_getElem?_getD, List.getElem?_map, slot, List.getD_eq_getElem?_getD]
  cases r.slots[i]? <;> rfl

theorem slot_empty (layout : Layout) (i : Nat) : (empty layout).slot i = .null := by
  rw [slot, empty, List.getD_eq_getElem?_getD, List.getElem?_replicate]
  split <;> rfl

end Record

end TrackedRecord
