import TrackedRecord.Proofs.Keyed
import TrackedRecord.Proofs.Value.Induction
import TrackedRecord.Record.Basic

/-!
# What is inside a value

The records that stand in a value, at any depth.
-/

namespace TrackedRecord.Value

/-- What a value is made of. -/
def parts : Value → List Value
  | .record r => r.slots
  | .array items => items
  | .map m => m.entries.map Prod.snd
  | .union _ value => [value]
  | _ => []

/-- What holds of a value may be shown from what holds of its parts. -/
theorem parts_induction {P : Value → Prop} (step : ∀ value : Value, (∀ part ∈ value.parts, P part) → P value)
    (value : Value) : P value := by
  induction value using Value.induction with
  | record layout slots dirty readable ih => exact step _ ih
  | array items ih => exact step _ ih
  | map entries states ih => exact step _ (List.forall_mem_map.mpr ih)
  | union branch value ih => exact step _ (List.forall_mem_singleton.mpr ih)
  | _ => exact step _ (List.forall_mem_nil _)

inductive Contains : Value → Value → Prop where
  | self (value : Value) : Contains value value
  | inside {whole part value : Value} (part_of : part ∈ whole.parts) (contains : Contains part value) :
      Contains whole value

theorem Contains.trans {a b c : Value} (first : a.Contains b) (second : b.Contains c) : a.Contains c := by
  induction first with
  | self => exact second
  | inside part_of _ ih => exact .inside part_of (ih second)

/-- All records in the value, and itself if it is one, are as `P` says. -/
def Every (P : Record Value → Prop) (value : Value) : Prop := ∀ r, value.Contains (.record r) → P r

variable {P Q : Record Value → Prop}

theorem Every.mono {value : Value} (every : value.Every P) (weaker : ∀ r, P r → Q r) : value.Every Q :=
  fun r contains => weaker r (every r contains)

theorem Every.contained {value part : Value} (every : value.Every P) (contains : value.Contains part) :
    part.Every P :=
  fun r inner => every r (contains.trans inner)

theorem Every.part {value part : Value} (every : value.Every P) (part_of : part ∈ value.parts) : part.Every P :=
  every.contained (.inside part_of (.self part))

theorem every_iff (value : Value) :
    value.Every P ↔ (∀ r, value = .record r → P r) ∧ ∀ part ∈ value.parts, part.Every P := by
  constructor
  · intro every
    exact ⟨fun r same => every r (same ▸ .self value), fun part part_of => every.part part_of⟩
  · rintro ⟨self, parts⟩ r contains
    cases contains with
    | self => exact self r rfl
    | inside part_of inner => exact parts _ part_of r inner

section

attribute [local simp] parts

@[simp] theorem every_record {r : Record Value} :
    (record r).Every P ↔ P r ∧ ∀ slot ∈ r.slots, slot.Every P := by
  simp [every_iff (record r)]

@[simp] theorem every_array {items : List Value} : (array items).Every P ↔ ∀ item ∈ items, item.Every P := by
  simp [every_iff (array items)]

@[simp] theorem every_map {m : StateMap Value} : (map m).Every P ↔ ∀ entry ∈ m.entries, entry.2.Every P := by
  simp only [every_iff (map m), parts, List.forall_mem_map]
  exact ⟨fun every => every.2, fun each => ⟨nofun, each⟩⟩

@[simp] theorem every_union {branch : Nat} {value : Value} : (union branch value).Every P ↔ value.Every P := by
  simp [every_iff (union branch value)]

@[simp] theorem every_null : null.Every P := by
  simp [every_iff null]

end

/-- No record, and without parts. -/
def Flat (value : Value) : Prop := value.parts = [] ∧ ∀ r, value ≠ .record r

theorem flat_null : null.Flat := ⟨rfl, fun _ => nofun⟩

theorem flat_enum (ordinal : Nat) : (enum ordinal).Flat := ⟨rfl, fun _ => nofun⟩

theorem flat_fixed (data : List UInt8) : (fixed data).Flat := ⟨rfl, fun _ => nofun⟩

theorem Flat.every {value : Value} (flat : value.Flat) : value.Every P := by
  refine (every_iff value).mpr ⟨fun r same => absurd same (flat.2 r), ?_⟩
  rw [flat.1]
  exact List.forall_mem_nil _

/-! ### Parts that are put together again -/

theorem Every.clearEntryStates {value : Value} (every : value.Every P) : value.clearEntryStates.Every P := by
  cases value with
  | map m => exact every_map.mpr (every_map (m := m).mp every)
  | _ => exact every

theorem Every.items {value : Value} (every : value.Every P) : ∀ item ∈ value.array?.getD [], item.Every P := by
  cases value with
  | array items => exact every_array.mp every
  | _ => exact List.forall_mem_nil _

theorem Every.entries {value : Value} (every : value.Every P) :
    ∀ entry ∈ value.mapOrEmpty.entries, entry.2.Every P := by
  cases value with
  | map m => exact every_map.mp every
  | _ => exact List.forall_mem_nil _

/-! ### Depth -/

mutual

/-- How many records stand inside each other, the value itself included. -/
def depth : Value → Nat
  | .record ⟨_, slots, _, _⟩ => depthAll slots + 1
  | .array items => depthAll items
  | .map ⟨entries, _⟩ => depthEntries entries
  | .union _ value => depth value
  | _ => 0

def depthAll : List Value → Nat
  | [] => 0
  | value :: rest => max (depth value) (depthAll rest)

def depthEntries : List (String × Value) → Nat
  | [] => 0
  | (_, value) :: rest => max (depth value) (depthEntries rest)

end

theorem depthAll_le {values : List Value} {k : Nat} : depthAll values ≤ k ↔ ∀ value ∈ values, value.depth ≤ k := by
  induction values with
  | nil => simp [depthAll]
  | cons value rest ih => rw [depthAll, Nat.max_le, ih, List.forall_mem_cons]

theorem depthEntries_le {entries : List (String × Value)} {k : Nat} :
    depthEntries entries ≤ k ↔ ∀ entry ∈ entries, entry.2.depth ≤ k := by
  induction entries with
  | nil => simp [depthEntries]
  | cons entry rest ih => rw [depthEntries, Nat.max_le, ih, List.forall_mem_cons]

theorem depth_record_le {r : Record Value} {k : Nat} :
    (record r).depth ≤ k + 1 ↔ ∀ slot ∈ r.slots, slot.depth ≤ k := by
  rw [depth, Nat.add_le_add_iff_right, depthAll_le]

theorem depth_array_le {items : List Value} {k : Nat} :
    (array items).depth ≤ k ↔ ∀ item ∈ items, item.depth ≤ k := by
  rw [depth, depthAll_le]

theorem depth_map_le {m : StateMap Value} {k : Nat} :
    (map m).depth ≤ k ↔ ∀ entry ∈ m.entries, entry.2.depth ≤ k := by
  rw [depth, depthEntries_le]

theorem depth_union (branch : Nat) (value : Value) : (union branch value).depth = value.depth := by
  rw [depth]

end TrackedRecord.Value
