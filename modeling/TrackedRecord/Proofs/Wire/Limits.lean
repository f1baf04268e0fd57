import TrackedRecord.Proofs.Value.Plain
import TrackedRecord.Text.Utf8
import TrackedRecord.Wire.Settings

/-!
# Values within the limits

The limits that a decoder puts on strings, byte strings, keys, arrays, maps and state tables, as limits
on the values that are written.
-/

namespace TrackedRecord

open Wire (Settings wordBound)

def Wire.Settings.AllowsText (settings : Settings) (s : String) : Prop :=
  (Utf8.encode s).length ≤ settings.maxBytes

instance (settings : Settings) (s : String) : Decidable (settings.AllowsText s) :=
  inferInstanceAs (Decidable ((Utf8.encode s).length ≤ settings.maxBytes))

namespace Value

mutual

def Within (settings : Settings) : Value → Prop
  | .bytes data => data.length ≤ settings.maxBytes
  | .string s => settings.AllowsText s
  | .record ⟨_, slots, _, _⟩ => AllWithin settings slots
  | .array items => items.length ≤ settings.maxCollection ∧ AllWithin settings items
  | .map ⟨entries, _⟩ => entries.length ≤ settings.maxCollection ∧ EntriesWithin settings entries
  | .union _ value => Within settings value
  | _ => True

def AllWithin (settings : Settings) : List Value → Prop
  | [] => True
  | value :: rest => Within settings value ∧ AllWithin settings rest

def EntriesWithin (settings : Settings) : List (String × Value) → Prop
  | [] => True
  | (key, value) :: rest => (settings.AllowsText key ∧ Within settings value) ∧ EntriesWithin settings rest

end

variable {settings : Settings}

section

attribute [local simp] Within AllWithin EntriesWithin

theorem allWithin_iff {values : List Value} :
    AllWithin settings values ↔ ∀ value ∈ values, value.Within settings := by
  induction values with
  | nil => simp
  | cons value rest ih => simp [ih]

theorem entriesWithin_iff {entries : List (String × Value)} :
    EntriesWithin settings entries ↔
      ∀ entry ∈ entries, settings.AllowsText entry.1 ∧ entry.2.Within settings := by
  induction entries with
  | nil => simp
  | cons entry rest ih => simp [ih]

theorem within_record {r : Record Value} :
    (record r).Within settings ↔ ∀ slot ∈ r.slots, slot.Within settings := by
  rw [Within, allWithin_iff]

theorem within_array {items : List Value} :
    (array items).Within settings ↔
      items.length ≤ settings.maxCollection ∧ ∀ item ∈ items, item.Within settings := by
  rw [Within, allWithin_iff]

theorem within_map {m : StateMap Value} :
    (map m).Within settings ↔ m.entries.length ≤ settings.maxCollection ∧
      ∀ entry ∈ m.entries, settings.AllowsText entry.1 ∧ entry.2.Within settings := by
  rw [Within, entriesWithin_iff]

theorem withTable_within (states : List (String × EntryState)) {value : Value}
    (within : value.Within settings) :
    (value.withTable states).Within settings := by
  cases value with
  | map m => exact within_map.mpr (within_map.mp within)
  | _ => exact within

theorem within_union {branch : Nat} {value : Value} :
    (union branch value).Within settings ↔ value.Within settings := by
  simp

end

end Value

/-- A table of entry states that is decoded again. -/
structure Wire.Settings.AllowsTable (settings : Settings) (states : List (String × EntryState)) : Prop where
  count : states.length ≤ settings.maxCollection
  keys : ∀ entry ∈ states, settings.AllowsText entry.1

/-- Whatever a payload shows of the record is within the limits. -/
def Record.Within (settings : Settings) (r : Record Value) : Prop :=
  ∀ index field, r.layout.field? index = some field → r.readable.get index = true →
    (r.slot index).Within settings ∧
      (field.kind = .map → settings.AllowsTable (r.slot index).mapOrEmpty.states)

theorem Wire.Settings.validate_iff {settings : Settings} :
    settings.validate = .ok () ↔ 0 < settings.maxCollection ∧ 0 < settings.maxBytes ∧
      settings.maxBytes < 0x100000000 ∧ 0 < settings.maxDepth := by
  unfold Wire.Settings.validate
  split
  · exact iff_of_false nofun (by omega)
  split
  · exact iff_of_false nofun (by omega)
  split
  · exact iff_of_false nofun (by omega)
  split
  · exact iff_of_false nofun (by omega)
  · exact iff_of_true rfl (by omega)

/-- Limits that a codec accepts are lengths of a word. -/
theorem Wire.Settings.maxBytes_lt {settings : Settings} (valid : settings.validate = .ok ()) :
    settings.maxBytes < wordBound :=
  Nat.lt_trans (validate_iff.mp valid).2.2.1 (by decide)

end TrackedRecord
