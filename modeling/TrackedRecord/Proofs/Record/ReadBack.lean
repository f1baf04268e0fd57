import TrackedRecord.Proofs.Record.Rendering

/-!
# Documents that are read back

The document of a value is read as the value that it was written of, for every regular schema that the value
conforms to. The labels of a union's branches are distinct, so a label leads back to its branch, and null to the
null branch.
-/

namespace TrackedRecord

/-! ### Regular schemas -/

namespace Schema

variable {schema type : Schema} {branches : List Schema} {position : Nat}

theorem Regular.branch (regular : (Schema.union branches).Regular) (member : type ∈ branches) :
    type.isUnion = false ∧ type.Regular := by
  cases regular with
  | union _ _ noUnion each => exact ⟨noUnion type member, each type member⟩

theorem nullableInner?_of_not_union (noUnion : schema.isUnion = false) : schema.nullableInner? = none := by
  cases schema with
  | union branches => cases noUnion
  | _ => rfl

/-- The inside of a nullable schema is neither null nor a union. -/
theorem Regular.core_of_nullable (regular : schema.Regular) (nullable : schema.nullableInner?.isSome = true) :
    schema.core.isNull = false ∧ schema.core.isUnion = false ∧ schema.core.Regular := by
  obtain ⟨inner, known⟩ := Option.isSome_iff_exists.mp nullable
  have core := Schema.core_of_nullable known
  unfold nullableInner? at known
  split at known
  · rename_i a b
    split at known
    · rename_i second
      cases known
      obtain ⟨noUnion, holds⟩ := regular.branch (List.mem_cons_of_mem _ List.mem_cons_self)
      rw [core, core_of_tagged (nullableInner?_of_not_union noUnion)]
      exact ⟨second, noUnion, holds⟩
    · rename_i first _
      cases known
      obtain ⟨noUnion, holds⟩ := regular.branch List.mem_cons_self
      rw [core, core_of_tagged (nullableInner?_of_not_union noUnion)]
      exact ⟨first, noUnion, holds⟩
    · cases known
  · cases known

theorem Regular.core (regular : schema.Regular) : schema.core.Regular := by
  cases nullable : schema.nullableInner? with
  | none => rwa [core_of_tagged nullable]
  | some inner => exact (regular.core_of_nullable (by rw [nullable]; rfl)).2.2

/-- A label leads to its branch. -/
theorem Regular.branchNamed? (regular : (Schema.union branches).Regular)
    (known : branches[position]? = some type) :
    Document.branchNamed? type.typeName branches = some (position, type) := by
  cases regular with
  | union _ labels _ _ =>
    obtain ⟨inside, rfl⟩ := List.getElem?_eq_some_iff.mp known
    have first : (branches.zipIdx.find? fun pair => pair.1.typeName == branches[position].typeName) =
        some (branches[position], position) := by
      rw [List.find?_eq_some_iff_getElem]
      refine ⟨beq_self_eq_true _, position, by simpa using inside, by simp, fun j before => ?_⟩
      simpa using Keyed.key_ne labels inside before
    exact congrArg (Option.map fun pair => (pair.2, pair.1)) first

theorem Regular.nullBranch (regular : (Schema.union branches).Regular)
    (known : branches[position]? = some type) (isNull : type.isNull = true) :
    branches.findIdx? Schema.isNull = some position := by
  cases regular with
  | union _ labels _ _ =>
    obtain ⟨inside, rfl⟩ := List.getElem?_eq_some_iff.mp known
    rw [List.findIdx?_eq_some_iff_getElem]
    refine ⟨inside, isNull, fun j before isNull' => ?_⟩
    have apart := Keyed.key_ne labels inside before
    rw [eq_null isNull, eq_null isNull'] at apart
    exact apart rfl

end Schema

/-! ### Whole values -/

namespace Value

/-- A value that documents can show but for its singles: the records in it are filled, its maps are sorted and its
doubles are finite. -/
structure Orderly (registry : Registry) (value : Value) : Prop where
  records : value.Every fun r => r.Shaped registry ∧ r.Filled
  sorted : ∀ {m}, value.Contains (.map m) → Keyed.Sorted m.entries
  double : ∀ {bits}, value.Contains (.double bits) → Decimal.double.IsFinite bits.toNat

theorem Orderly.of_parts {registry : Registry} {value : Value}
    (record : ∀ r, value = .record r → r.Shaped registry ∧ r.Filled)
    (map : ∀ m, value = .map m → Keyed.Sorted m.entries)
    (double : ∀ bits, value = .double bits → Decimal.double.IsFinite bits.toNat)
    (parts : ∀ part ∈ value.parts, part.Orderly registry) : value.Orderly registry where
  records := (every_iff value).mpr ⟨record, fun part part_of => (parts part part_of).records⟩
  sorted contains := by
    cases contains with
    | self => exact map _ rfl
    | inside part_of contains => exact (parts _ part_of).sorted contains
  double contains := by
    cases contains with
    | self => exact double _ rfl
    | inside part_of contains => exact (parts _ part_of).double contains

/-- No single in the value is infinite or none at all. -/
def FiniteSingles (value : Value) : Prop :=
  ∀ bits, value.Contains (.float bits) → Decimal.single.IsFinite bits.toNat

theorem Orderly.part {registry : Registry} {value part : Value} (orderly : value.Orderly registry)
    (part_of : part ∈ value.parts) : part.Orderly registry where
  records := orderly.records.contained (.inside part_of (.self part))
  sorted contains := orderly.sorted (.inside part_of contains)
  double contains := orderly.double (.inside part_of contains)

theorem FiniteSingles.part {value part : Value} (finite : value.FiniteSingles) (part_of : part ∈ value.parts) :
    part.FiniteSingles :=
  fun bits contains => finite bits (.inside part_of contains)

/-- A value that documents can show: the records in it are filled, and its numbers are finite. -/
structure Whole (registry : Registry) (value : Value) : Prop where
  formed : value.WellFormed registry
  filled : value.Every Record.Filled
  finite : value.Finite

theorem Whole.part {registry : Registry} {value part : Value} (whole : value.Whole registry)
    (part_of : part ∈ value.parts) : part.Whole registry where
  formed := whole.formed.part part_of
  filled := whole.filled.contained (.inside part_of (.self part))
  finite := whole.finite.part part_of

namespace Whole

variable {registry : Registry}

theorem orderly {value : Value} (whole : value.Whole registry) : value.Orderly registry := by
  have formed {part : Value} (contains : value.Contains part) : part.WellFormed registry := by
    induction contains with
    | self => exact whole.formed
    | inside part_of _ ih => exact ih (whole.part part_of)
  refine ⟨fun r contains => ⟨(wellFormed_record.mp (formed contains)).1, whole.filled r contains⟩,
    fun contains => (wellFormed_map.mp (formed contains)).1.entries, whole.finite.double⟩

theorem flat {value : Value} (flat : value.Flat) (formed : value.WellFormed registry)
    (float : ∀ bits, value = .float bits → Decimal.single.IsFinite bits.toNat)
    (double : ∀ bits, value = .double bits → Decimal.double.IsFinite bits.toNat) : value.Whole registry := by
  refine ⟨formed, flat.every, .of_parts float double ?_⟩
  rw [flat.1]
  exact List.forall_mem_nil _

theorem record {r : Record Value} (shaped : r.Shaped registry) (filled : r.Filled)
    (slots : ∀ slot ∈ r.slots, slot.Whole registry) : (Value.record r).Whole registry where
  formed := wellFormed_record.mpr ⟨shaped, fun slot member => (slots slot member).formed⟩
  filled := every_record.mpr ⟨filled, fun slot member => (slots slot member).filled⟩
  finite := .of_parts nofun nofun fun slot member => (slots slot member).finite

theorem map {m : StateMap Value} (shaped : m.Shaped) (entries : ∀ entry ∈ m.entries, entry.2.Whole registry) :
    (Value.map m).Whole registry where
  formed := wellFormed_map.mpr ⟨shaped, fun entry member => (entries entry member).formed⟩
  filled := every_map.mpr fun entry member => (entries entry member).filled
  finite := .of_parts nofun nofun (List.forall_mem_map.mpr fun entry member => (entries entry member).finite)

theorem union {branch : Nat} {value : Value} (small : branch < Wire.wordBound) (whole : value.Whole registry) :
    (Value.union branch value).Whole registry where
  formed := wellFormed_union.mpr ⟨small, whole.formed⟩
  filled := every_union.mpr whole.filled
  finite := .of_parts nofun nofun (List.forall_mem_singleton.mpr whole.finite)

end Whole

theorem toJson_union {branches : List Schema} (tagged : (Schema.union branches).nullableInner? = none) {branch : Nat}
    {type : Schema} {value : Value} (known : branches[branch]? = some type) :
    (Value.union branch value).toJson (.union branches) =
      if type.isNull then .null else .object [(type.typeName, value.toJson type)] := by
  rw [Value.toJson, Schema.core_of_tagged tagged]
  dsimp only
  rw [known]

/-- States do not count. -/
theorem same_clearEntryStates (a b : Value) : a.clearEntryStates.same b = a.same b := by
  cases a with
  | map m => cases b <;> rfl
  | _ => rfl

end Value

namespace Document

/-- Whatever regular schema it conforms to, the value is read from its document. -/
def ReadsBack (registry : Registry) (value : Value) : Prop :=
  ∀ path (schema : Schema), schema.Regular → value.conforms schema = true →
    ∃ value', valueOf registry path schema (value.toJson schema) = .ok value' ∧ value'.same value = true

variable {registry : Registry} {path : String}

/-! ### Lists and maps -/

theorem itemsOf_itemsToJson (path : String) {element : Schema} (regular : element.Regular)
    {items : List Value} (i : Nat)
    (each : ∀ item ∈ items, item.conforms element = true ∧ ReadsBack registry item) :
    ∃ items', itemsOf registry path element i (Value.itemsToJson element items) = .ok items' ∧
      Value.sameAll items' items = true := by
  induction items generalizing i with
  | nil => exact ⟨[], by rw [Value.itemsToJson, itemsOf], rfl⟩
  | cons item rest ih =>
    rw [List.forall_mem_cons] at each
    obtain ⟨⟨fits, back⟩, others⟩ := each
    obtain ⟨item', read, alike⟩ := back s!"{path}[{i}]" element regular fits
    obtain ⟨rest', later, same⟩ := ih (i + 1) others
    refine ⟨item' :: rest', ?_, Value.sameAll_cons.mpr ⟨alike, same⟩⟩
    rw [Value.itemsToJson, itemsOf]
    exact Result.parts_ok.mpr ⟨_, _, read, later, rfl⟩

theorem entriesToJson_sorted (schema : Schema) {entries : List (String × Value)} (sorted : Keyed.Sorted entries) :
    Keyed.Sorted (Value.entriesToJson schema entries) := by
  have keys : Keyed.keys (Value.entriesToJson schema entries) = Keyed.keys entries := by
    induction entries with
    | nil => rfl
    | cons entry rest ih =>
      obtain ⟨key, value⟩ := entry
      rw [Value.entriesToJson]
      exact congrArg _ (ih (List.pairwise_cons.mp sorted).2)
  rw [Keyed.sorted_iff_keys] at sorted ⊢
  rwa [keys]

/-- The entries that are read go behind those that were read before, in the order of their keys. -/
theorem putEntries_entriesToJson (path : String) {schema : Schema} (regular : schema.Regular) (m : StateMap Value)
    (before : List (String × Value)) {entries : List (String × Value)} (sorted : Keyed.Sorted (before ++ entries))
    (same : Value.sameEntries m.entries before = true)
    (each : ∀ entry ∈ entries, entry.2.conforms schema = true ∧ ReadsBack registry entry.2) :
    ∃ m', putEntries registry path schema m (Value.entriesToJson schema entries) = .ok m' ∧
      Value.sameEntries m'.entries (before ++ entries) = true := by
  induction entries generalizing m before with
  | nil => exact ⟨m, by rw [Value.entriesToJson, putEntries], by rwa [List.append_nil]⟩
  | cons entry rest ih =>
    obtain ⟨key, value⟩ := entry
    rw [List.forall_mem_cons] at each
    obtain ⟨⟨fits, back⟩, others⟩ := each
    obtain ⟨value', read, alike⟩ := back s!"{path}[{Text.quoted key}]" schema regular fits
    have put : Value.sameEntries (m.put key value').entries (before ++ [(key, value)]) = true := by
      rw [← Keyed.put_last sorted.above]
      exact Value.put_same same key alike
    have order : before ++ (key, value) :: rest = (before ++ [(key, value)]) ++ rest := by simp
    rw [order] at sorted ⊢
    obtain ⟨m', later, same'⟩ := ih _ _ sorted put others
    refine ⟨m', ?_, same'⟩
    rw [Value.entriesToJson, putEntries, Result.bind_of_ok read]
    exact later

/-! ### Fields -/

/-- The field at an index has a member. -/
def Names (layout : Layout) (members : List (String × Json)) (i : Nat) : Prop :=
  ∃ field, layout.field? i = some field ∧ field.name ∈ Keyed.keys members

/-- The members are slots of the record under the names of their fields, and they are read back. -/
def Shows (registry : Registry) (source : Record Value) (members : List (String × Json)) : Prop :=
  ∀ member ∈ members, ∃ i field, source.layout.field? i = some field ∧
    member = (field.name, (source.slot i).toJson field.schema) ∧
    (source.slot i).conforms field.schema = true ∧ ReadsBack registry (source.slot i)

/-- The fields that have members are as in the source, and they are dirty and readable beside those that were
before; the others are left. -/
structure Takes (source : Record Value) (members : List (String × Json)) (r r' : Record Value) : Prop where
  layout : r'.layout = r.layout
  slot : ∀ i, Names source.layout members i → (r'.slot i).same (source.slot i) = true
  kept : ∀ i, ¬Names source.layout members i → r'.slot i = r.slot i
  dirty : ∀ i, r'.isDirty i = true ↔ r.isDirty i = true ∨ Names source.layout members i
  readable : ∀ i, r'.isReadable i = true ↔ r.isReadable i = true ∨ Names source.layout members i

theorem names_cons {layout : Layout} (regular : layout.Regular) {i : Nat} {field : Field}
    (known : layout.field? i = some field) {json : Json} {members : List (String × Json)} {j : Nat} :
    Names layout ((field.name, json) :: members) j ↔ i = j ∨ Names layout members j := by
  constructor
  · rintro ⟨other, found, member⟩
    rcases List.mem_cons.mp member with same | later
    · have first := regular.indexOf?_name found
      rw [same, regular.indexOf?_name known] at first
      exact Or.inl (Option.some.inj first)
    · exact Or.inr ⟨other, found, later⟩
  · rintro (rfl | ⟨other, found, later⟩)
    · exact ⟨field, known, List.mem_cons_self⟩
    · exact ⟨other, found, List.mem_cons_of_mem _ later⟩

theorem setMembers_takes {source r : Record Value} (regular : source.layout.Regular)
    (layout : r.layout = source.layout) (shaped : r.Shaped registry) {members : List (String × Json)}
    (shows : Shows registry source members) :
    ∃ r', setMembers registry source.layout r members = .ok r' ∧ r'.Shaped registry ∧
      Takes source members r r' := by
  induction members generalizing r with
  | nil =>
    have none (i : Nat) : ¬Names source.layout [] i := fun ⟨_, _, member⟩ => nomatch member
    refine ⟨r, by rw [setMembers], shaped, rfl, fun i named => absurd named (none i), fun _ _ => rfl,
      fun i => ?_, fun i => ?_⟩
    · exact ⟨Or.inl, fun either => either.resolve_right (none i)⟩
    · exact ⟨Or.inl, fun either => either.resolve_right (none i)⟩
  | cons member rest ih =>
    obtain ⟨⟨i, field, known, rfl, fits, back⟩, others⟩ := List.forall_mem_cons.mp shows
    have inside : field ∈ source.layout.fields := List.mem_of_getElem? known
    obtain ⟨value, read, alike⟩ :=
      back (source.layout.name ++ "." ++ field.name) field.schema (regular.schema inside) fits
    have found : source.layout.indexOf field.name = .ok i := Layout.indexOf_ok.mpr (regular.indexOf?_name known)
    have conforms : (Change.set i value).Fits field := (Value.conforms_same field.schema alike).trans fits
    have set := Change.apply_ok.mpr ⟨field, layout ▸ known, conforms, rfl⟩
    obtain ⟨does, shaped'⟩ := Change.apply_does shaped set
    obtain ⟨r', run, shapedEnd, takes⟩ := ih (does.layout.trans layout) shaped' others
    have names (j : Nat) : Names source.layout ((field.name, (source.slot i).toJson field.schema) :: rest) j ↔
        i = j ∨ Names source.layout rest j := names_cons regular known
    refine ⟨r', ?_, shapedEnd, takes.layout.trans does.layout, fun j named => ?_, fun j unnamed => ?_,
      fun j => ?_, fun j => ?_⟩
    · rw [setMembers, Result.bind_of_ok found, Result.bind_of_ok (Layout.fieldAt_ok.mpr known),
        Result.bind_of_ok read]
      exact (Result.bind_of_ok set).trans run
    · by_cases later : Names source.layout rest j
      · exact takes.slot j later
      · obtain rfl := ((names j).mp named).resolve_right later
        have written : r'.slot i = value := by rw [takes.kept i later, does.slot]; exact if_pos rfl
        rw [written]
        exact alike
    · obtain ⟨other, later⟩ := not_or.mp (mt (names j).mpr unnamed)
      rw [takes.kept j later, does.slot]
      exact if_neg (Ne.symm other)
    · rw [takes.dirty, does.dirty, names, Bool.or_eq_true, decide_eq_true_iff, or_assoc]
      rfl
    · rw [takes.readable, does.readable, names, Bool.or_eq_true, decide_eq_true_iff, or_assoc]
      rfl

theorem shows_members {r : Record Value} (regular : r.layout.Regular) (sized : r.Sized) {shown : Nat → Bool}
    (each : ∀ i field, shown i = true → r.layout.field? i = some field →
      (r.slot i).conforms field.schema = true ∧ ReadsBack registry (r.slot i)) :
    Shows registry r (r.members shown) := by
  intro member inside
  obtain ⟨i, field, known, isShown, same⟩ := (Record.mem_members regular sized).mp inside
  exact ⟨i, field, known, same, each i field isShown known⟩

theorem names_members {r : Record Value} (regular : r.layout.Regular) (sized : r.Sized) {shown : Nat → Bool}
    {i : Nat} : Names r.layout (r.members shown) i ↔ i < r.layout.fieldCount ∧ shown i = true := by
  constructor
  · rintro ⟨field, known, named⟩
    obtain ⟨member, inside, name⟩ := List.mem_map.mp named
    obtain ⟨j, other, found, isShown, rfl⟩ := (Record.mem_members regular sized).mp inside
    have first := regular.indexOf?_name found
    rw [show other.name = field.name from name, regular.indexOf?_name known] at first
    obtain rfl := Option.some.inj first
    exact ⟨Layout.lt_of_field? known, isShown⟩
  · rintro ⟨inside, isShown⟩
    obtain ⟨field, known⟩ := Layout.exists_field inside
    have member := (Record.mem_members regular sized).mpr ⟨i, field, known, isShown, rfl⟩
    exact ⟨field, known, List.mem_map.mpr ⟨_, member, rfl⟩⟩

/-! ### Values -/

/-- Only null and unions have documents that are null. -/
theorem Reads.not_null {schema : Schema} {json : Json} {value : Value}
    (reads : Reads registry path schema json value)
    (noNull : schema.isNull = false) (noUnion : schema.isUnion = false) : json.isNull = false := by
  cases reads with
  | @primitive kind json value read =>
    cases json with
    | null =>
      cases kind with
      | null => cases noNull
      | _ => cases read
    | _ => rfl
  | @enum e json value read =>
    cases json with
    | null => cases read
    | _ => rfl
  | @fixed f json value read =>
    cases json with
    | null => cases read
    | _ => rfl
  | nullBranch => cases noUnion
  | _ => rfl

/-- All layouts are regular, and makers give instances of the layout that they are handed. -/
structure Serves (registry : Registry) : Prop where
  regular : ∀ {name layout}, registry.get? name = some layout → layout.Regular
  makes : ∀ {name compiled}, registry.record? name = some compiled →
    registry.Makes compiled.fresh compiled.layout

theorem reads_record (serves : Serves registry) {type : RecordRef} {r : Record Value}
    (named : r.typeName = type.fullName) (orderly : (Value.record r).Orderly registry)
    (parts : ∀ slot ∈ r.slots, ReadsBack registry slot) :
    ∃ value', Reads registry path (.record type) (.object (r.members fun _ => true)) value' ∧
      value'.same (.record r) = true := by
  obtain ⟨shaped, filled⟩ := orderly.records r (.self _)
  obtain ⟨compiled, known, layout⟩ := Registry.record?_of_get? shaped.layout
  have regular : r.layout.Regular := serves.regular shaped.layout
  have made := serves.makes known
  rw [layout] at made
  rw [named] at known
  have shows : Shows registry r (r.members fun _ => true) := by
    refine shows_members regular shaped.slots fun i field _ found => ⟨filled i field found, ?_⟩
    have inside : i < r.slots.length := shaped.slots ▸ Layout.lt_of_field? found
    rw [Record.slot_of_lt inside]
    exact parts _ (List.getElem_mem inside)
  obtain ⟨r', run, shaped', takes⟩ := setMembers_takes regular made.1 made.2.1 shows
  rw [← layout] at run
  refine ⟨_, .record known run, ?_⟩
  have same : r'.layout = r.layout := takes.layout.trans made.1
  change r'.clearState.same r = true
  refine Value.same_record.mpr ⟨congrArg Layout.fullName same, Value.sameAll_of_getD ?_ fun i => ?_⟩
  · rw [Record.clearState_slots, List.length_map, shaped'.slots, same, shaped.slots]
  · change (r'.clearState.slot i).same (r.slot i) = true
    rw [Record.slot_clearState, Value.same_clearEntryStates]
    by_cases inside : i < r.layout.fieldCount
    · exact takes.slot i ((names_members regular shaped.slots).mpr ⟨inside, rfl⟩)
    · have outside : r.layout.fieldCount ≤ i := Nat.not_lt.mp inside
      rw [Record.slot_of_le (by rw [shaped'.slots, same]; exact outside),
        Record.slot_of_le (by rw [shaped.slots]; exact outside)]
      rfl

theorem reads_union {branches : List Schema} (regular : (Schema.union branches).Regular)
    (tagged : (Schema.union branches).nullableInner? = none) {branch : Nat} {type : Schema} {value : Value}
    (known : branches[branch]? = some type) (fits : value.conforms type = true) (back : ReadsBack registry value) :
    ∃ value', Reads registry path (.union branches) ((Value.union branch value).toJson (.union branches)) value' ∧
      value'.same (.union branch value) = true := by
  rw [Value.toJson_union tagged known]
  cases isNull : type.isNull with
  | true =>
    rw [if_pos rfl]
    obtain rfl := Schema.eq_null isNull
    rw [Value.conforms] at fits
    obtain rfl : value = .null := by cases value <;> first | rfl | cases fits
    exact ⟨_, .nullBranch (regular.nullBranch known isNull), Value.same_refl _⟩
  | false =>
    rw [if_neg Bool.false_ne_true]
    have inside := (regular.branch (List.mem_of_getElem? known)).2
    obtain ⟨value', read, alike⟩ := back path type inside fits
    refine ⟨_, .labelled (regular.branchNamed? known) read, ?_⟩
    rw [Value.same, alike, beq_self_eq_true]
    rfl

/-- One step inside a value, once null unions are left off. -/
theorem reads_toJson (path : String) (serves : Serves registry) {schema : Schema} (regular : schema.Regular)
    (tagged : schema.nullableInner? = none) {value : Value} (fits : value.conforms schema = true)
    (orderly : value.Orderly registry) (finite : value.FiniteSingles)
    (parts : ∀ part ∈ value.parts, ReadsBack registry part) :
    ∃ value', Reads registry path schema (value.toJson schema) value' ∧ value'.same value = true := by
  cases schema with
  | primitive kind =>
    exact ⟨value, .primitive (Value.primitiveOf_toJson _ fits ⟨finite _, orderly.double⟩ path), Value.same_refl _⟩
  | enum e =>
    obtain ⟨ordinal, rfl, small⟩ := Value.conforms_enum.mp fits
    cases regular with
    | enum _ _ distinct _ => exact ⟨_, .enum (Value.enumOf_toJson distinct small path), Value.same_refl _⟩
  | fixed f =>
    obtain ⟨data, rfl, size⟩ := Value.conforms_fixed.mp fits
    rw [Value.toJson]
    exact ⟨_, .fixed (Value.fixedOf_toJson size path), Value.same_refl _⟩
  | record type =>
    obtain ⟨r, rfl, named⟩ := Value.conforms_record.mp fits
    rw [Record.toJson_record]
    exact reads_record serves named orderly parts
  | array element =>
    obtain ⟨items, rfl, each⟩ := Value.conforms_array.mp fits
    cases regular with
    | array regular =>
      obtain ⟨items', read, same⟩ := itemsOf_itemsToJson path regular 0 fun item inside =>
        ⟨each item inside, parts item inside⟩
      rw [Value.toJson, Schema.core_of_tagged tagged]
      exact ⟨_, .array read, same⟩
  | map schema =>
    obtain ⟨m, rfl, each⟩ := Value.conforms_map.mp fits
    have sorted := orderly.sorted (.self _)
    cases regular with
    | map regular =>
      obtain ⟨m', read, same⟩ := putEntries_entriesToJson path regular StateMap.empty [] sorted rfl
        fun entry inside => ⟨each entry inside, parts entry.2 (List.mem_map_of_mem inside)⟩
      rw [Value.toJson, Schema.core_of_tagged tagged]
      dsimp only
      rw [Json.ofMembers, Keyed.ofList_sorted (entriesToJson_sorted schema sorted)]
      exact ⟨_, .map read, same⟩
  | union branches =>
    obtain ⟨branch, inner, type, rfl, known, fits⟩ :=
      (Value.conforms_tagged (Schema.nullPosition?_none tagged)).mp fits
    exact reads_union regular tagged known fits (parts inner List.mem_cons_self)

theorem readsBack_of_orderly (serves : Serves registry) (value : Value) :
    value.Orderly registry → value.FiniteSingles → ReadsBack registry value := by
  induction value using Value.parts_induction with
  | step value ih =>
    intro orderly finite path schema regular fits
    rcases Value.conforms_core.mp fits with ⟨rfl, nullable⟩ | fits
    · have absent : (schema.nullableInner?.isSome && Json.null.isNull) = true := by
        rw [nullable]
        rfl
      refine ⟨.null, valueOf_ok.mpr ?_, rfl⟩
      rw [Value.toJson, if_pos absent]
    · obtain ⟨value', reads, alike⟩ := reads_toJson path serves regular.core (Schema.core_tagged schema) fits
        orderly finite fun part part_of => ih part part_of (orderly.part part_of) (finite.part part_of)
      rw [Value.toJson_core] at reads
      refine ⟨value', valueOf_ok.mpr ?_, alike⟩
      rw [if_neg]
      · exact reads
      · intro both
        obtain ⟨nullable, isNull⟩ := Bool.and_eq_true_iff.mp both
        obtain ⟨noNull, noUnion, _⟩ := regular.core_of_nullable nullable
        rw [reads.not_null noNull noUnion] at isNull
        cases isNull

theorem readsBack (serves : Serves registry) (value : Value) (whole : value.Whole registry) :
    ReadsBack registry value :=
  readsBack_of_orderly serves value whole.orderly fun _ => whole.finite.float

end Document

end TrackedRecord
