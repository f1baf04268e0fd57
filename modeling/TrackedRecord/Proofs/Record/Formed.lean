import TrackedRecord.Proofs.Record.Document
import TrackedRecord.Proofs.Wire.Limits

/-!
# Well-formed records from documents

A value that is read from a document and stays within the limits is well formed, if the lists in the schemas can
be counted. Every entry of a map in it is updated.
-/

namespace TrackedRecord

open Wire (Settings wordBound)

/-- Symbols and branches can be counted in a word. -/
inductive Schema.Counted : Schema → Prop where
  | primitive (kind : Primitive) : Counted (.primitive kind)
  | enum {e : EnumType} (small : e.symbols.length < wordBound) : Counted (.enum e)
  | fixed (f : FixedType) : Counted (.fixed f)
  | record (r : RecordRef) : Counted (.record r)
  | array {element : Schema} (counted : Counted element) : Counted (.array element)
  | map {value : Schema} (counted : Counted value) : Counted (.map value)
  | union {branches : List Schema} (small : branches.length < wordBound)
    (each : ∀ branch ∈ branches, Counted branch) : Counted (.union branches)

theorem Schema.Counted.core {schema : Schema} (counted : schema.Counted) : schema.core.Counted := by
  induction counted with
  | union small each ih =>
    rename_i branches
    cases nullable : (Schema.union branches).nullableInner? with
    | none =>
      rw [core_of_tagged nullable]
      exact .union small each
    | some inner =>
      obtain ⟨_, position, same, _, found⟩ := nullableInner?_some nullable
      cases same
      rw [core_of_nullable nullable]
      exact ih inner (List.mem_of_getElem? found)
  | primitive kind => exact .primitive kind
  | enum small => exact .enum small
  | fixed f => exact .fixed f
  | record r => exact .record r
  | array counted => exact .array counted
  | map counted => exact .map counted

/-- Fields, symbols and branches can be counted in a word. -/
def Registry.Counted (registry : Registry) : Prop :=
  ∀ record ∈ registry.records, record.layout.fieldCount < wordBound ∧
    ∀ field ∈ record.layout.fields, field.schema.Counted

theorem Value.within_clearEntryStates {settings : Settings} {value : Value} :
    value.clearEntryStates.Within settings ↔ value.Within settings := by
  cases value with
  | map m => exact within_map.trans within_map.symm
  | _ => rfl

/-! ### Maps from documents -/

/-- What is written under each key may be changed before or after. -/
theorem Keyed.map_put {α β : Type} (f : α → β) (key : String) (value : α) (entries : List (String × α)) :
    (put key value entries).map (fun entry => (entry.1, f entry.2)) =
      put key (f value) (entries.map fun entry => (entry.1, f entry.2)) := by
  induction entries with
  | nil => rfl
  | cons entry rest ih =>
    obtain ⟨k, v⟩ := entry
    simp only [put, List.map_cons]
    split
    · rfl
    · split
      · rfl
      · rw [List.map_cons, ih]

namespace StateMap

/-- Every entry is updated, and nothing else has a state. -/
structure AllUpdated {α : Type} (m : StateMap α) : Prop where
  sorted : Keyed.Sorted m.entries
  states : m.states = m.entries.map fun entry => (entry.1, .updated)

theorem AllUpdated.put {α : Type} {m : StateMap α} (updated : m.AllUpdated) (key : String) (value : α) :
    (m.put key value).AllUpdated where
  sorted := Keyed.put_sorted updated.sorted
  states := by
    have written := Keyed.map_put (fun _ => EntryState.updated) key value m.entries
    rw [← updated.states] at written
    exact written.symm

theorem AllUpdated.statesSorted {α : Type} {m : StateMap α} (updated : m.AllUpdated) : Keyed.Sorted m.states := by
  have sorted := Keyed.sorted_iff_keys.mp updated.sorted
  rw [updated.states, Keyed.sorted_iff_keys, Keyed.keys, List.map_map]
  exact sorted

end StateMap

namespace Document

variable {registry : Registry} {path : String} {settings : Settings}

theorem putEntries_updated {schema : Schema} {members : List (String × Json)} {m m' : StateMap Value}
    (updated : m.AllUpdated) (read : putEntries registry path schema m members = .ok m') : m'.AllUpdated := by
  induction members generalizing m with
  | nil =>
    rw [putEntries] at read
    cases read
    exact updated
  | cons member rest ih =>
    obtain ⟨key, json⟩ := member
    rw [putEntries] at read
    obtain ⟨value, _, read⟩ := Result.bind_ok read
    exact ih (updated.put key value) read

theorem putEntries_empty_updated {schema : Schema} {members : List (String × Json)} {m : StateMap Value}
    (read : putEntries registry path schema StateMap.empty members = .ok m) : m.AllUpdated :=
  putEntries_updated ⟨show Keyed.Sorted [] from List.Pairwise.nil, rfl⟩ read

/-! ### Values from documents -/

/-- What is read of the document is well formed if it is within the limits. -/
def GivesFormed (registry : Registry) (settings : Settings) (json : Json) : Prop :=
  ∀ path (schema : Schema) value, schema.Counted → valueOf registry path schema json = .ok value →
    value.Within settings → value.WellFormed registry

/-- The slots are well formed, if those that are shown are within the limits. -/
def Limited (registry : Registry) (settings : Settings) (r : Record Value) : Prop :=
  ∀ i, (r.isReadable i = true → (r.slot i).Within settings) → (r.slot i).WellFormed registry

theorem setMembers_limited {layout : Layout} {members : List (String × Json)} {r r' : Record Value}
    (each : ∀ member ∈ members, GivesFormed registry settings (Prod.snd member))
    (counted : ∀ field ∈ layout.fields, field.schema.Counted) (shaped : r.Shaped registry)
    (limited : Limited registry settings r) (read : setMembers registry layout r members = .ok r') :
    r'.Shaped registry ∧ Limited registry settings r' := by
  refine setMembers_induction (P := fun s => s.Shaped registry ∧ Limited registry settings s) ?_ ⟨shaped, limited⟩
    read
  rintro member inside s next path index field value ⟨shaped, limited⟩ known first set
  obtain ⟨does, shaped⟩ := Change.apply_does shaped (show (Change.set index value).apply s = .ok next from set)
  refine ⟨shaped, fun i within => ?_⟩
  have readable := does.readable i
  rw [readable, does.slot] at within
  rw [does.slot]
  split
  · subst_vars
    rw [if_pos rfl] at within
    have declared : field ∈ layout.fields := List.mem_of_getElem? known
    exact each member inside _ _ _ (counted field declared) first (within (by simp [Change.index]))
  · rename_i other
    rw [if_neg other] at within
    exact limited i fun shown => within (by rw [shown, Bool.true_or])

theorem Reads.formed (sound : registry.Sound) (counted : registry.Counted)
    (small : settings.maxCollection < wordBound) {schema : Schema} (core : schema.Counted) {json : Json} {value : Value}
    (parts : ∀ part ∈ json.parts, GivesFormed registry settings part) (within : value.Within settings)
    (reads : Reads registry path schema json value) : value.WellFormed registry := by
  cases reads with
  | primitive read =>
    rename_i kind
    cases kind <;> obtain ⟨_, _, rfl⟩ := Result.map_ok.mp read <;> trivial
  | enum read =>
    obtain ⟨ordinal, rfl, inside⟩ := enumOf_conforms read
    cases core with
    | enum symbols => exact Nat.lt_trans inside symbols
  | fixed read =>
    obtain ⟨data, rfl, _⟩ := fixedOf_conforms read
    trivial
  | @record type members compiled r known read =>
    obtain ⟨_, formed⟩ := sound.makes known
    have start : Limited registry settings (compiled.fresh compiled.layout) :=
      fun i _ => Record.slot_wellFormed formed i
    have fields := (counted compiled (List.mem_of_find?_eq_some known)).2
    obtain ⟨shaped, limited⟩ := setMembers_limited (List.forall_mem_map.mp parts) fields formed.1 start read
    refine Value.wellFormed_record.mpr (Record.clearState_wellFormed ⟨shaped, fun slot member => ?_⟩)
    obtain ⟨i, inside, rfl⟩ := Record.mem_slots member
    refine limited i fun _ => Value.within_clearEntryStates.mp ?_
    exact Value.within_record.mp within _ (List.mem_map_of_mem member)
  | array read =>
    obtain ⟨allowed, each⟩ := Value.within_array.mp within
    cases core with
    | array element =>
      refine Value.wellFormed_array.mpr ⟨Nat.lt_of_le_of_lt allowed small, fun item member => ?_⟩
      have formed := itemsOf_forall (P := fun value => value.Within settings → value.WellFormed registry)
        (fun item inside path value => parts item inside path _ value element) read
      exact formed item member (each item member)
  | map read =>
    obtain ⟨allowed, each⟩ := Value.within_map.mp within
    have updated := putEntries_empty_updated read
    cases core with
    | map element =>
      refine Value.wellFormed_map.mpr ⟨⟨updated.sorted, updated.statesSorted, ?_, ?_⟩, fun entry member => ?_⟩
      · exact Nat.lt_of_le_of_lt allowed small
      · rw [updated.states, List.length_map]
        exact Nat.lt_of_le_of_lt allowed small
      · have formed := putEntries_forall (P := fun value => value.Within settings → value.WellFormed registry)
          (fun member inside path value => List.forall_mem_map.mp parts member inside path _ value element)
          (List.forall_mem_nil _) read
        exact formed entry member (each entry member).2
  | nullBranch found =>
    cases core with
    | union branches =>
      have inside := (List.findIdx?_eq_some_iff_getElem.mp found).1
      exact Value.wellFormed_union.mpr ⟨Nat.lt_trans inside branches, trivial⟩
  | labelled found read =>
    obtain ⟨here, _⟩ := branchNamed?_some found
    cases core with
    | union branches each =>
      have inside := (List.getElem?_eq_some_iff.mp here).1
      have formed := parts _ List.mem_cons_self _ _ _ (each _ (List.mem_of_getElem? here)) read
      exact Value.wellFormed_union.mpr ⟨Nat.lt_trans inside branches, formed (Value.within_union.mp within)⟩

theorem valueOf_formed (sound : registry.Sound) (counted : registry.Counted)
    (small : settings.maxCollection < wordBound) (json : Json) : GivesFormed registry settings json := by
  induction json using Json.induction with
  | step json ih =>
    intro path schema value schemaCounted read within
    rw [valueOf_ok] at read
    split at read
    · rw [read]
      exact Value.wellFormed_null
    · exact Reads.formed sound counted small schemaCounted.core ih within read

/-- A record that is read from a document is well formed if what it shows is within the limits. -/
theorem recordOf_formed (sound : registry.Sound) (counted : registry.Counted)
    (small : settings.maxCollection < wordBound) {name : String} {compiled : CompiledRecord}
    (known : registry.record? name = some compiled) {members : List (String × Json)} {r : Record Value}
    (read : recordOf registry compiled (.object members) = .ok r) (within : r.Within settings) :
    r.WellFormed registry := by
  obtain ⟨_, formed⟩ := sound.makes known
  have fields := (counted compiled (List.mem_of_find?_eq_some known)).2
  obtain ⟨shaped, limited⟩ := setMembers_limited (fun member _ => valueOf_formed sound counted small member.2) fields
    formed.1 (fun i _ => Record.slot_wellFormed formed i) read
  refine ⟨shaped, fun slot member => ?_⟩
  obtain ⟨i, inside, rfl⟩ := Record.mem_slots member
  obtain ⟨field, declared⟩ := Layout.exists_field (shaped.slots ▸ inside)
  exact limited i fun shown => (within i field declared shown).1

end Document

end TrackedRecord
