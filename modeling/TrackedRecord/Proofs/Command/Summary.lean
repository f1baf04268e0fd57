import Mathlib.Data.List.Basic
import TrackedRecord.Command.Summary
import TrackedRecord.Proofs.Record.Marked
import TrackedRecord.Proofs.Wire.Joined

/-!
# Summaries of documents

The summary of a record that was read from a document can be told from the document: its fields in the order of
their indices, and the keys of its maps. It is the same for what is decoded of the record.
-/

namespace TrackedRecord

/-! ### Lists by index -/

theorem FieldBits.filterMap_range {α β : Type} (items : List α) (g : α → Option β) :
    (List.range items.length).filterMap (fun i => items[i]?.bind g) = items.filterMap g := by
  induction items with
  | nil => rfl
  | cons item rest ih =>
    rw [List.length_cons, List.range_succ_eq_map, List.filterMap_cons, List.filterMap_map, List.filterMap_cons, ← ih]
    rfl

/-- What is collected for the set bits is collected item by item. -/
theorem FieldBits.filterMap_ones {α β : Type} {bits : FieldBits} {items : List α} (len : bits.len = items.length)
    {f : Nat → Option β} {g : α → Option β}
    (each : ∀ i item, items[i]? = some item → (if bits.get i then f i else none) = g item) :
    bits.ones.filterMap f = items.filterMap g := by
  rw [ones, List.filterMap_filter, len, ← filterMap_range items g]
  refine List.filterMap_congr fun i inside => ?_
  have known := List.getElem?_eq_getElem (List.mem_range.mp inside)
  rw [known, Option.bind_some, each i _ known]

/-! ### Summaries of maps -/

theorem Keyed.foldl_put_found {α : Type} {entries pairs : List (String × α)} (sorted : Sorted entries)
    (found : ∀ pair ∈ pairs, get? pair.1 entries = some pair.2) :
    pairs.foldl (fun all (key, value) => put key value all) entries = entries := by
  induction pairs with
  | nil => rfl
  | cons pair rest ih =>
    rw [List.forall_mem_cons] at found
    rw [List.foldl_cons]
    dsimp only
    rw [put_found sorted found.1]
    exact ih found.2

namespace StateMap

/-- All keys of the map, updated. -/
theorem AllUpdated.allStates {m : StateMap Value} (updated : m.AllUpdated) :
    m.allStates = m.entries.map fun entry => (entry.1, .updated) := by
  have sorted := updated.statesSorted
  have shown : (m.keys.map fun key => (key, (m.state? key).getD .unchanged)) = m.states := by
    rw [updated.states, keys, Keyed.keys, List.map_map]
    refine List.map_congr_left fun entry member => ?_
    have told : (entry.1, EntryState.updated) ∈ m.states := updated.states ▸ List.mem_map_of_mem member
    rw [Function.comp, state?, sorted.get?_mem told]
    rfl
  rw [StateMap.allStates, shown, Keyed.foldl_put_found sorted fun _ member => sorted.get?_mem member, updated.states]

theorem AllUpdated.stateSummary {m : StateMap Value} (updated : m.AllUpdated) :
    m.stateSummary = .object (m.entries.map fun entry => (entry.1, .string "updated")) := by
  have sorted : Keyed.Sorted (m.entries.map fun entry => (entry.1, Json.string "updated")) := by
    rw [Keyed.sorted_iff_keys, Keyed.keys, List.map_map]
    exact Keyed.sorted_iff_keys.mp updated.sorted
  rw [StateMap.stateSummary, updated.allStates, List.map_map]
  exact congrArg Json.object (Keyed.ofList_sorted sorted)

end StateMap

theorem Field.core_eq {field : Field} (regular : field.schema.Regular) : field.schema.core = field.valueSchema := by
  unfold Field.valueSchema
  cases nullable : field.schema.nullableInner? with
  | none => exact Schema.core_of_tagged nullable
  | some inner =>
    obtain ⟨branches, position, same, _, found⟩ := Schema.nullableInner?_some nullable
    rw [same] at regular
    have noUnion := (regular.branch (List.mem_of_getElem? found)).1
    rw [Schema.core_of_nullable nullable, Schema.core_of_tagged (Schema.nullableInner?_of_not_union noUnion)]
    rfl

namespace Document

variable {registry : Registry} {path : String}

/-- The keys of a map are those of its document. -/
theorem putEntries_keys {β : Type} (mark : β) {schema : Schema} {members : List (String × Json)}
    {m m' : StateMap Value} (read : putEntries registry path schema m members = .ok m') :
    m'.entries.map (fun entry => (entry.1, mark)) =
      (members.map fun member => (member.1, mark)).foldl (fun all (key, value) => Keyed.put key value all)
        (m.entries.map fun entry => (entry.1, mark)) := by
  induction members generalizing m with
  | nil =>
    rw [putEntries] at read
    cases read
    rfl
  | cons member rest ih =>
    obtain ⟨key, json⟩ := member
    rw [putEntries] at read
    obtain ⟨value, _, read⟩ := Result.bind_ok read
    have put : (m.put key value).entries.map (fun entry => (entry.1, mark)) =
        Keyed.put key mark (m.entries.map fun entry => (entry.1, mark)) :=
      Keyed.map_put (fun _ => mark) key value m.entries
    rw [ih read, put]
    rfl

/-- The entry states of a map field for which a document has more than null: all keys, updated. -/
def fieldStates (field : Field) (json : Json) : Option Json :=
  if field.kind = .map ∧ json.isNull = false then
    some (.ofMembers ((json.object?.getD []).map fun entry => (entry.1, .string "updated")))
  else none

theorem kind_of_fieldStates {field : Field} {json states : Json} (told : fieldStates field json = some states) :
    field.kind = .map := by
  unfold fieldStates at told
  split at told
  · rename_i isMap
    exact isMap.1
  · cases told

theorem putEntries_summary {schema : Schema} {members : List (String × Json)} {m : StateMap Value}
    (read : putEntries registry path schema StateMap.empty members = .ok m) :
    m.stateSummary = .ofMembers (members.map fun member => (member.1, .string "updated")) := by
  rw [(putEntries_empty_updated read).stateSummary, putEntries_keys (Json.string "updated") read]
  rfl

/-- What is read for a field is a map just where the document has one. -/
theorem valueOf_summary {field : Field} (regular : field.schema.Regular) {json : Json} {value : Value}
    (read : valueOf registry path field.schema json = .ok value) :
    value.map?.map StateMap.stateSummary = fieldStates field json := by
  unfold fieldStates
  rw [valueOf_ok] at read
  split at read
  · rename_i absent
    rw [Bool.and_eq_true] at absent
    rw [if_neg (fun shown => Bool.false_ne_true (shown.2.symm.trans absent.2)), read]
    rfl
  · unfold Field.kind
    rw [← Field.core_eq regular]
    generalize field.schema.core = core at read ⊢
    cases read with
    | primitive read =>
      rename_i kind
      cases kind <;> obtain ⟨_, _, rfl⟩ := Result.map_ok.mp read <;> rfl
    | enum read =>
      obtain ⟨_, rfl, _⟩ := enumOf_conforms read
      rfl
    | fixed read =>
      obtain ⟨_, rfl, _⟩ := fixedOf_conforms read
      rfl
    | map read => exact congrArg some (putEntries_summary read)
    | _ => rfl

/-! ### Whole documents -/

/-- The fields that an object names, in the order of their indices, with what it has for them. -/
def named (layout : Layout) (members : List (String × Json)) : List (Field × Json) :=
  layout.fields.filterMap fun field => (Keyed.get? field.name members).map fun json => (field, json)

/-- The summary of a record that shows just the fields that an object names, with the given values. -/
def report (layout : Layout) (members : List (String × Json)) (values : Json) : Json :=
  let fields := named layout members
  let names : Json := .array (fields.map fun entry => .string entry.1.name)
  let states := fields.filterMap fun entry => (fieldStates entry.1 entry.2).map fun states => (entry.1.name, states)
  .ofMembers [
    ("type", .string layout.fullName),
    ("values", values),
    ("dirty", names),
    ("readable", names),
    ("entry_states", .ofMembers states)]

/-- The record has the fields that an object names, dirty and readable, and maps where the object has some. -/
structure Tells (layout : Layout) (members : List (String × Json)) (r : Record Value) : Prop where
  sameLayout : r.layout = layout
  dirtyLen : r.dirty.len = layout.fields.length
  readableLen : r.readable.len = layout.fields.length
  dirty : ∀ i, r.isDirty i = true ↔ Names layout members i
  readable : ∀ i, r.isReadable i = true ↔ Names layout members i
  maps : ∀ {i field json}, layout.field? i = some field → Keyed.get? field.name members = some json →
    (r.slot i).map?.map StateMap.stateSummary = fieldStates field json

theorem names_iff {layout : Layout} {members : List (String × Json)} {i : Nat} {field : Field}
    (known : layout.field? i = some field) :
    Names layout members i ↔ (Keyed.get? field.name members).isSome = true := by
  rw [Names, known, ← Keyed.mem_keys_iff]
  exact ⟨fun ⟨_, same, named⟩ => Option.some.inj same ▸ named, fun named => ⟨field, rfl, named⟩⟩

/-- What is collected for the fields that an object names is collected from the object. -/
theorem filterMap_named {β : Type} {layout : Layout} {members : List (String × Json)} {bits : FieldBits}
    (len : bits.len = layout.fields.length) (set : ∀ i, bits.get i = true ↔ Names layout members i)
    {f : Nat → Option β} {g : Field × Json → Option β}
    (each : ∀ {i field json}, layout.field? i = some field → Keyed.get? field.name members = some json →
      f i = g (field, json)) : bits.ones.filterMap f = (named layout members).filterMap g := by
  rw [named, List.filterMap_filterMap]
  apply FieldBits.filterMap_ones len
  intro i field known
  have named := (set i).trans (names_iff known)
  cases found : Keyed.get? field.name members with
  | none => simp [named, found]
  | some json => simp [named, found, each known found]

namespace Tells

variable {layout : Layout} {members : List (String × Json)} {r : Record Value}

theorem fieldNames (tells : Tells layout members r) {bits : FieldBits} (len : bits.len = layout.fields.length)
    (set : ∀ i, bits.get i = true ↔ Names layout members i) :
    r.fieldNames bits.ones = .array ((named layout members).map fun entry => .string entry.1.name) := by
  rw [Record.fieldNames, tells.sameLayout, ← List.filterMap_eq_map]
  refine congrArg Json.array (filterMap_named len set fun known _ => ?_)
  rw [known]
  rfl

theorem entryStates (tells : Tells layout members r) :
    r.entryStates = .ofMembers ((named layout members).filterMap fun entry =>
      (fieldStates entry.1 entry.2).map fun states => (entry.1.name, states)) := by
  rw [Record.entryStates, tells.sameLayout]
  refine congrArg Json.ofMembers (filterMap_named tells.readableLen tells.readable fun {i field json} known found => ?_)
  rw [known, ← tells.maps known found]
  cases (r.slot i).map? <;> rfl

theorem summary (tells : Tells layout members r) : r.summary = report layout members r.readableToJson := by
  unfold Record.summary report
  dsimp only
  rw [tells.fieldNames tells.dirtyLen tells.dirty, tells.fieldNames tells.readableLen tells.readable,
    tells.entryStates, Record.typeName, tells.sameLayout]

end Tells

/-! ### Records of documents -/

theorem setMembers_names {layout : Layout} {members : List (String × Json)} {r r' : Record Value}
    (read : setMembers registry layout r members = .ok r') :
    ∀ name ∈ Keyed.keys members, name ∈ layout.fields.map Field.name := by
  induction members generalizing r with
  | nil => exact List.forall_mem_nil _
  | cons member rest ih =>
    obtain ⟨name, json⟩ := member
    rw [setMembers] at read
    obtain ⟨index, found, read⟩ := Result.bind_ok read
    obtain ⟨field, known, read⟩ := Result.bind_ok read
    obtain ⟨value, _, read⟩ := Result.bind_ok read
    obtain ⟨next, _, read⟩ := Result.bind_ok read
    rw [Layout.fieldAt_ok] at known
    have called : field.name = name := Layout.name_of_indexOf? (Layout.indexOf_ok.mp found) known
    exact List.forall_mem_cons.mpr ⟨called ▸ List.mem_map_of_mem (List.mem_of_getElem? known), ih read⟩

theorem named_names (layout : Layout) (members : List (String × Json)) :
    (named layout members).map (fun entry => entry.1.name) =
      (layout.fields.map Field.name).filter fun name => Keyed.contains name members := by
  rw [named]
  induction layout.fields with
  | nil => rfl
  | cons field rest ih =>
    rw [List.map_cons, List.filterMap_cons, List.filter_cons, Keyed.contains]
    cases Keyed.get? field.name members with
    | none => exact ih
    | some json => exact congrArg (field.name :: ·) ih

variable {compiled : CompiledRecord} {members : List (String × Json)} {r : Record Value}

/-- A document names fields only, each of them once. -/
theorem recordOf_named (regular : compiled.layout.Regular) (default : compiled.fresh = Record.empty)
    (sorted : Keyed.Sorted members) (read : recordOf registry compiled (.object members) = .ok r) :
    ((named compiled.layout members).map fun entry => entry.1.name).Perm (Keyed.keys members) := by
  rw [recordOf, default] at read
  have names := setMembers_names read
  have distinct : (Keyed.keys members).Nodup :=
    (Keyed.sorted_iff_keys.mp sorted).imp fun less same => absurd (same ▸ less) (String.lt_irrefl _)
  rw [named_names, List.perm_ext_iff_of_nodup (regular.names.filter _) distinct]
  intro name
  rw [List.mem_filter, Keyed.contains, ← Keyed.mem_keys_iff]
  exact ⟨And.right, fun member => ⟨names name member, member⟩⟩

theorem recordOf_tells (regular : compiled.layout.Regular)
    (known : registry.get? compiled.layout.fullName = some compiled.layout) (default : compiled.fresh = Record.empty)
    (sorted : Keyed.Sorted members) (read : recordOf registry compiled (.object members) = .ok r)
    (shaped : r.Shaped registry) : Tells compiled.layout members r := by
  obtain ⟨layout, dirty, readable, written⟩ := recordOf_marks regular known default read
  refine ⟨layout, ?_, ?_, dirty, readable, fun {i field json} here found => ?_⟩
  · rw [shaped.dirtyLen, layout]
    rfl
  · rw [shaped.readableLen, layout]
    rfl
  · have named : Names compiled.layout members i := (names_iff here).mpr (by rw [found]; rfl)
    obtain ⟨field', path, json', here', member, first⟩ := written i named
    obtain rfl := Option.some.inj (here.symm.trans here')
    obtain rfl := Option.some.inj (found.symm.trans (sorted.get?_mem member))
    exact valueOf_summary (regular.schema (List.mem_of_getElem? here)) first

end Document

end TrackedRecord
