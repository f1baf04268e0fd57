import TrackedRecord.Proofs.Value.Equality
import TrackedRecord.Proofs.Value.WellFormed

/-!
# Values without their states

`plain` is a value as it comes out of the plain encoding: its records are all readable and not dirty, and
its maps are unchanged. Nothing else is lost, so it is the same value by structure.
-/

namespace TrackedRecord.Value

mutual

def plain : Value → Value
  | .record ⟨layout, slots, _, _⟩ =>
    .record ⟨layout, plainAll slots, FieldBits.new layout.fieldCount, layout.selectAll⟩
  | .array items => .array (plainAll items)
  | .map ⟨entries, _⟩ => .map ⟨plainEntries entries, []⟩
  | .union branch value => .union branch (plain value)
  | value => value

def plainAll : List Value → List Value
  | [] => []
  | value :: rest => plain value :: plainAll rest

def plainEntries : List (String × Value) → List (String × Value)
  | [] => []
  | (key, value) :: rest => (key, plain value) :: plainEntries rest

end

section

attribute [local simp] plain plainAll plainEntries

theorem plainAll_eq_map (values : List Value) : plainAll values = values.map plain := by
  induction values with
  | nil => rfl
  | cons value rest ih => simp [ih]

theorem plainEntries_eq_map (entries : List (String × Value)) :
    plainEntries entries = entries.map fun entry => (entry.1, entry.2.plain) := by
  induction entries with
  | nil => rfl
  | cons entry rest ih => simp [ih]

theorem plain_record (r : Record Value) :
    (record r).plain = .record
      ⟨r.layout, r.slots.map plain, FieldBits.new r.layout.fieldCount, r.layout.selectAll⟩ := by
  rw [plain, plainAll_eq_map]

theorem plain_array (items : List Value) : (array items).plain = .array (items.map plain) := by
  simp [plainAll_eq_map]

theorem plain_map (m : StateMap Value) :
    (map m).plain = .map ⟨m.entries.map fun entry => (entry.1, entry.2.plain), []⟩ := by
  rw [plain, plainEntries_eq_map]

theorem plain_union (branch : Nat) (value : Value) :
    (union branch value).plain = .union branch value.plain := by
  simp

end

theorem eq_null_of_isNull {value : Value} (isNull : value.isNull = true) : value = .null := by
  cases value with
  | null => rfl
  | _ => cases isNull

/-! ### Equality by structure -/

theorem sameAll_map {f : Value → Value} {values : List Value}
    (each : ∀ value ∈ values, (f value).same value = true) :
    sameAll (values.map f) values = true := by
  induction values with
  | nil => rfl
  | cons value rest ih =>
    rw [List.map_cons, sameAll, each value List.mem_cons_self,
      ih fun value later => each value (List.mem_cons_of_mem _ later)]
    rfl

theorem sameEntries_map {f : Value → Value} {entries : List (String × Value)}
    (each : ∀ entry ∈ entries, (f (Prod.snd entry)).same entry.2 = true) :
    sameEntries (entries.map fun entry => (entry.1, f entry.2)) entries = true := by
  induction entries with
  | nil => rfl
  | cons entry rest ih =>
    obtain ⟨key, value⟩ := entry
    rw [List.map_cons, sameEntries, each (key, value) List.mem_cons_self,
      ih fun entry later => each entry (List.mem_cons_of_mem _ later), beq_self_eq_true]
    rfl

theorem plain_same (value : Value) : value.plain.same value = true := by
  induction value using Value.induction with
  | record layout slots dirty readable ih =>
    rw [plain, plainAll_eq_map, same, sameAll_map ih, beq_self_eq_true]
    rfl
  | array items ih =>
    rw [plain, plainAll_eq_map, same]
    exact sameAll_map ih
  | map entries states ih =>
    rw [plain, plainEntries_eq_map, same]
    exact sameEntries_map ih
  | union branch value ih =>
    rw [plain, same, ih, beq_self_eq_true]
    rfl
  | null => rfl
  | _ => simp [plain]

/-! ### Values of the encoding -/

/-- The value with the given entry states, if it is a map. -/
def withTable (states : List (String × EntryState)) : Value → Value
  | .map m => .map ⟨m.entries, states⟩
  | value => value

theorem withTable_same (states : List (String × EntryState)) (value other : Value) :
    (value.withTable states).same other = value.same other := by
  cases value with
  | map m => cases other <;> rfl
  | _ => rfl

theorem withTable_plain (states : List (String × EntryState)) (value : Value) :
    (value.withTable states).plain = value.plain := by
  cases value with
  | map m => rw [withTable, plain_map, plain_map]
  | _ => rfl

theorem withTable_wellFormed {registry : Registry} {states : List (String × EntryState)}
    (sorted : Keyed.Sorted states)
    (count : states.length < Wire.wordBound) {value : Value} (formed : value.WellFormed registry) :
    (value.withTable states).WellFormed registry := by
  cases value with
  | map m =>
    obtain ⟨shaped, each⟩ := wellFormed_map.mp formed
    exact wellFormed_map.mpr ⟨⟨shaped.entries, sorted, shaped.size, count⟩, each⟩
  | _ => exact formed

end TrackedRecord.Value
