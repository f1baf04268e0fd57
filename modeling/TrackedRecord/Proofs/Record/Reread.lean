import TrackedRecord.Proofs.Json.Reader
import TrackedRecord.Proofs.Record.Marked
import TrackedRecord.Proofs.Record.RoundTrip

/-!
# Documents that are read, written and read again

Every conversion of the reader can be undone but one: a number beyond the range of the singles is read as an
infinite single, and no document shows that. A value that was read of a document with all fields of its records is
read again from the document that is written of it, exactly if no single in it is infinite.
-/

namespace TrackedRecord

open Decimal (single)

/-! ### Values without parts -/

namespace Value

/-- A single that is not finite is null in a document. -/
theorem ofDouble_widen_null {bits : UInt32} (infinite : ¬single.IsFinite bits.toNat) :
    Json.ofDouble (widen bits) = .null := by
  unfold Json.ofDouble widen Decimal.Format.convert
  cases unpacked : single.unpack bits.toNat with
  | nan => rfl
  | infinite negative => cases negative <;> rfl
  | finite negative significand exponent => exact absurd ⟨_, _, _, unpacked⟩ infinite

theorem FiniteSingles.of_parts {value : Value}
    (float : ∀ bits, value = .float bits → Decimal.single.IsFinite bits.toNat)
    (parts : ∀ part ∈ value.parts, part.FiniteSingles) : value.FiniteSingles := by
  intro bits contains
  cases contains with
  | self => exact float _ rfl
  | inside part_of contains => exact parts _ part_of _ contains

/-- A value that is not a single itself is as finite as its parts. -/
theorem FiniteSingles.of_kind {value : Value} (other : ∀ bits, value ≠ .float bits)
    (parts : ∀ part ∈ value.parts, part.FiniteSingles) : value.FiniteSingles :=
  .of_parts (fun bits same => absurd same (other bits)) parts

theorem Flat.finiteSingles {value : Value} (flat : value.Flat)
    (float : ∀ bits, value = .float bits → Decimal.single.IsFinite bits.toNat) : value.FiniteSingles := by
  refine .of_parts float ?_
  rw [flat.1]
  exact List.forall_mem_nil _

theorem finiteSingles_null : null.FiniteSingles := by
  refine flat_null.finiteSingles ?_
  rintro _ ⟨⟩

theorem finiteSingles_enum (ordinal : Nat) : (enum ordinal).FiniteSingles := by
  refine (flat_enum ordinal).finiteSingles ?_
  rintro _ ⟨⟩

theorem finiteSingles_fixed (data : List UInt8) : (fixed data).FiniteSingles := by
  refine (flat_fixed data).finiteSingles ?_
  rintro _ ⟨⟩

theorem finiteSingles_record {r : Record Value} (slots : ∀ slot ∈ r.slots, slot.FiniteSingles) :
    (record r).FiniteSingles := by
  refine .of_kind ?_ slots
  rintro _ ⟨⟩

theorem finiteSingles_array {items : List Value} (each : ∀ item ∈ items, item.FiniteSingles) :
    (array items).FiniteSingles := by
  refine .of_kind ?_ each
  rintro _ ⟨⟩

theorem finiteSingles_map {m : StateMap Value} (each : ∀ entry ∈ m.entries, entry.2.FiniteSingles) :
    (map m).FiniteSingles := by
  refine .of_kind ?_ (List.forall_mem_map.mpr each)
  rintro _ ⟨⟩

theorem finiteSingles_union {branch : Nat} {inner : Value} (whole : inner.FiniteSingles) :
    (union branch inner).FiniteSingles := by
  refine .of_kind ?_ (List.forall_mem_singleton.mpr whole)
  rintro _ ⟨⟩

theorem Orderly.clearEntryStates {registry : Registry} {value : Value} (orderly : value.Orderly registry) :
    value.clearEntryStates.Orderly registry := by
  cases value with
  | map m =>
    refine .of_parts nofun ?_ nofun fun part part_of => orderly.part part_of
    have sorted : Keyed.Sorted m.entries := orderly.sorted (.self _)
    rintro _ ⟨⟩
    exact sorted
  | _ => exact orderly

end Value

namespace Document

variable {registry : Registry} {path : String}

/-! ### Documents with all fields -/

/-- Reading the document comes upon an object for a record. -/
inductive Meets (registry : Registry) : Schema → Json → RecordRef → List (String × Json) → Prop where
  | here {schema : Schema} {type : RecordRef} {members : List (String × Json)} (core : schema.core = .record type) :
      Meets registry schema (.object members) type members
  | item {schema element : Schema} {items : List Json} {item : Json} {type : RecordRef}
      {members : List (String × Json)} (core : schema.core = .array element) (inside : item ∈ items)
      (meets : Meets registry element item type members) : Meets registry schema (.array items) type members
  | entry {schema value : Schema} {entries : List (String × Json)} {entry : String × Json} {type : RecordRef}
      {members : List (String × Json)} (core : schema.core = .map value) (inside : entry ∈ entries)
      (meets : Meets registry value entry.2 type members) : Meets registry schema (.object entries) type members
  | branch {schema inner : Schema} {branches : List Schema} {label : String} {position : Nat} {json : Json}
      {type : RecordRef} {members : List (String × Json)} (core : schema.core = .union branches)
      (found : branchNamed? label branches = some (position, inner))
      (meets : Meets registry inner json type members) : Meets registry schema (.object [(label, json)]) type members
  | field {schema : Schema} {outer type : RecordRef} {compiled : CompiledRecord} {name : String} {json : Json}
      {others members : List (String × Json)} {i : Nat} {field : Field} (core : schema.core = .record outer)
      (known : registry.record? outer.fullName = some compiled) (inside : (name, json) ∈ others)
      (found : compiled.layout.indexOf? name = some i) (here : compiled.layout.field? i = some field)
      (meets : Meets registry field.schema json type members) : Meets registry schema (.object others) type members

/-- Every object for a record has a member for each field. -/
def Supplies (registry : Registry) (schema : Schema) (json : Json) : Prop :=
  ∀ type members, Meets registry schema json type members →
    ∀ compiled, registry.record? type.fullName = some compiled →
      ∀ field ∈ compiled.layout.fields, field.name ∈ Keyed.keys members

/-! ### What is read can be shown -/

theorem setMembers_shaped {layout : Layout} {members : List (String × Json)} {r r' : Record Value}
    (shaped : r.Shaped registry) (read : setMembers registry layout r members = .ok r') : r'.Shaped registry := by
  refine setMembers_induction (P := fun s => s.Shaped registry) ?_ shaped read
  intro _ _ s next _ index _ value shaped _ _ set
  exact (Change.apply_does shaped (show (Change.set index value).apply s = .ok next from set)).2

/-- What is read of a document with all fields can be shown, but for singles that are not finite. -/
def GivesOrderly (registry : Registry) (json : Json) : Prop :=
  json.Held → ∀ path schema value, Supplies registry schema json →
    valueOf registry path schema json = .ok value → value.Orderly registry

theorem primitiveOf_orderly {kind : Primitive} {json : Json} {value : Value} (held : json.Held)
    (read : primitiveOf path kind json = .ok value) : value.Orderly registry := by
  have flat := Value.flat_of_primitive (primitiveOf_conforms read)
  refine .of_parts (fun r same => absurd same (flat.2 r)) (fun m same => ?_) (fun bits same => ?_) ?_
  · subst same
    cases kind <;> obtain ⟨_, _, absurd⟩ := Result.map_ok.mp read <;> cases absurd
  · subst same
    cases kind <;> obtain ⟨_, found, absurd⟩ := Result.map_ok.mp read <;> cases absurd
    exact held.double? (require_ok.mp found)
  · rw [flat.1]
    exact List.forall_mem_nil _

/-- A record is filled by the members of an object that has one for each field. -/
theorem setMembers_orderly (serves : Serves registry) {type : RecordRef} {compiled : CompiledRecord}
    {members : List (String × Json)} {r : Record Value} (held : (Json.object members).Held)
    (known : registry.record? type.fullName = some compiled)
    (supplies : Supplies registry (.record type) (.object members))
    (parts : ∀ member ∈ members, GivesOrderly registry (Prod.snd member))
    (read : setMembers registry compiled.layout (compiled.fresh compiled.layout) members = .ok r) :
    (Value.record r.clearState).Orderly registry := by
  obtain ⟨layout, fresh, _⟩ := serves.makes known
  have own : MakesOwn registry := fun _ _ known => (serves.makes known).1
  have regular := serves.regular (Registry.get?_of_record? known)
  have core : (Schema.record type).core = .record type := Schema.core_of_tagged rfl
  have shaped := setMembers_shaped fresh read
  have writes := setMembers_writes fresh read
  have same : r.layout = compiled.layout := writes.own.trans layout
  -- each slot is what was read of a member
  have slot (i : Nat) (field : Field) (here : compiled.layout.field? i = some field) :
      (r.slot i).conforms field.schema = true ∧ (r.slot i).Orderly registry := by
    have named := supplies type members (.here core) compiled known field (List.mem_of_getElem? here)
    have filled : Fills compiled.layout members i := (fills_iff regular).mpr ⟨field, here, named⟩
    obtain ⟨name, json, other, inside, found, position, first⟩ := writes.written i filled
    obtain rfl := Option.some.inj (here.symm.trans position)
    refine ⟨valueOf_conforms own.named json _ _ _ first, parts _ inside (held.part ?_) _ _ _ ?_ first⟩
    · exact List.mem_map_of_mem inside
    · exact fun inner others meets => supplies inner others (.field core known inside found here meets)
  refine .of_parts ?_ nofun nofun fun part part_of => ?_
  · rintro _ ⟨⟩
    refine ⟨shaped.clearState, fun i field here => ?_⟩
    rw [Record.slot_clearState]
    have here : r.layout.field? i = some field := here
    exact (Value.conforms_same field.schema (Value.clearEntryStates_same _)).trans (slot i field (same ▸ here)).1
  · obtain ⟨old, before, rfl⟩ := List.mem_map.mp part_of
    obtain ⟨i, inside, rfl⟩ := Record.mem_slots before
    obtain ⟨field, here⟩ := Layout.exists_field (same ▸ shaped.slots ▸ inside)
    exact (slot i field here).2.clearEntryStates

theorem Reads.orderly (serves : Serves registry) {schema : Schema} {json : Json} {value : Value}
    (tagged : schema.nullableInner? = none) (held : json.Held) (supplies : Supplies registry schema json)
    (parts : ∀ part ∈ json.parts, GivesOrderly registry part) (reads : Reads registry path schema json value) :
    value.Orderly registry := by
  have core := Schema.core_of_tagged tagged
  cases reads with
  | primitive read => exact primitiveOf_orderly held read
  | enum read =>
    obtain ⟨ordinal, rfl, _⟩ := enumOf_conforms read
    exact .of_parts nofun nofun nofun (List.forall_mem_nil _)
  | fixed read =>
    obtain ⟨data, rfl, _⟩ := fixedOf_conforms read
    exact .of_parts nofun nofun nofun (List.forall_mem_nil _)
  | record known read => exact setMembers_orderly serves held known supplies (List.forall_mem_map.mp parts) read
  | array read =>
    refine .of_parts nofun nofun nofun (itemsOf_forall (fun item inside path value first => ?_) read)
    exact parts item inside (held.part inside) _ _ _
      (fun type members meets => supplies type members (.item core inside meets)) first
  | map read =>
    refine .of_parts nofun ?_ nofun (List.forall_mem_map.mpr
      (putEntries_forall (fun member inside path value first => ?_) (List.forall_mem_nil _) read))
    · rintro _ ⟨⟩
      exact (putEntries_empty_updated read).sorted
    · have part_of := List.mem_map_of_mem (f := Prod.snd) inside
      exact parts _ part_of (held.part part_of) _ _ _
        (fun type members meets => supplies type members (.entry core inside meets)) first
  | nullBranch =>
    refine .of_parts nofun nofun nofun (List.forall_mem_singleton.mpr ?_)
    exact .of_parts nofun nofun nofun (List.forall_mem_nil _)
  | labelled found read =>
    refine .of_parts nofun nofun nofun (List.forall_mem_singleton.mpr ?_)
    exact parts _ List.mem_cons_self (held.part List.mem_cons_self) _ _ _
      (fun type members meets => supplies type members (.branch core found meets)) read

theorem supplies_core {schema : Schema} {json : Json} (supplies : Supplies registry schema json) :
    Supplies registry schema.core json := by
  have same : schema.core.core = schema.core := Schema.core_of_tagged (Schema.core_tagged schema)
  intro type members meets
  refine supplies type members ?_
  cases meets with
  | here core => exact .here (same ▸ core)
  | item core inside meets => exact .item (same ▸ core) inside meets
  | entry core inside meets => exact .entry (same ▸ core) inside meets
  | branch core found meets => exact .branch (same ▸ core) found meets
  | field core known inside found here meets => exact .field (same ▸ core) known inside found here meets

theorem valueOf_orderly (serves : Serves registry) (json : Json) : GivesOrderly registry json := by
  induction json using Json.induction with
  | step json ih =>
    intro held path schema value supplies read
    rw [valueOf_ok] at read
    split at read
    · subst read
      exact .of_parts nofun nofun nofun (List.forall_mem_nil _)
    · exact read.orderly serves (Schema.core_tagged schema) held (supplies_core supplies) ih

/-! ### What can be read again is finite -/

/-- A value that is read again as it was has no single that documents cannot show. -/
def ShowsSingles (registry : Registry) (value : Value) : Prop :=
  ∀ path (schema : Schema) value', schema.Regular → value.conforms schema = true →
    valueOf registry path schema (value.toJson schema) = .ok value' → value'.same value = true → value.FiniteSingles

theorem itemsOf_again {element : Schema} {items items' : List Value} {i : Nat}
    (read : itemsOf registry path element i (Value.itemsToJson element items) = .ok items')
    (same : Value.sameAll items' items = true) :
    ∀ item ∈ items, ∃ path value', valueOf registry path element (item.toJson element) = .ok value' ∧
      value'.same item = true := by
  induction items generalizing i items' with
  | nil => exact List.forall_mem_nil _
  | cons item rest ih =>
    rw [Value.itemsToJson, itemsOf] at read
    obtain ⟨value', others, first, later, rfl⟩ := Result.parts_ok.mp read
    obtain ⟨alike, same⟩ := Value.sameAll_cons.mp same
    exact List.forall_mem_cons.mpr ⟨⟨_, value', first, alike⟩, ih later same⟩

/-- A map that is read holds under each key what was read of its member, if no two members share a key. -/
theorem putEntries_get? {schema : Schema} {members : List (String × Json)} {m m' : StateMap Value}
    (distinct : (Keyed.keys members).Nodup) (read : putEntries registry path schema m members = .ok m') :
    (∀ key, key ∉ Keyed.keys members → m'.get? key = m.get? key) ∧
      ∀ member ∈ members, ∃ path value', valueOf registry path schema member.2 = .ok value' ∧
        m'.get? member.1 = some value' := by
  induction members generalizing m with
  | nil =>
    rw [putEntries] at read
    cases read
    exact ⟨fun _ _ => rfl, List.forall_mem_nil _⟩
  | cons member rest ih =>
    obtain ⟨key, json⟩ := member
    rw [putEntries] at read
    obtain ⟨value, first, later⟩ := Result.bind_ok read
    obtain ⟨fresh, distinct⟩ := List.nodup_cons.mp distinct
    obtain ⟨kept, each⟩ := ih distinct later
    refine ⟨fun other absent => ?_, List.forall_mem_cons.mpr ⟨⟨_, value, first, ?_⟩, each⟩⟩
    · obtain ⟨different, absent⟩ := not_or.mp (mt List.mem_cons.mpr absent)
      rw [kept other absent, StateMap.get?_put, if_neg different]
    · rw [kept key fresh, StateMap.get?_put, if_pos rfl]

theorem putEntries_again {schema : Schema} {m m' : StateMap Value} (sorted : Keyed.Sorted m.entries)
    (read : putEntries registry path schema StateMap.empty (Value.entriesToJson schema m.entries) = .ok m')
    (same : m'.same m = true) :
    ∀ entry ∈ m.entries, ∃ path value', valueOf registry path schema (entry.2.toJson schema) = .ok value' ∧
      value'.same entry.2 = true := by
  have distinct : (Keyed.keys (Value.entriesToJson schema m.entries)).Nodup :=
    (Keyed.sorted_iff_keys.mp (entriesToJson_sorted schema sorted)).imp fun below => String.ne_of_lt below
  have members : ∀ entries : List (String × Value), ∀ entry ∈ entries,
      (entry.1, entry.2.toJson schema) ∈ Value.entriesToJson schema entries := by
    intro entries
    induction entries with
    | nil => exact List.forall_mem_nil _
    | cons head rest ih =>
      rw [Value.entriesToJson]
      exact List.forall_mem_cons.mpr ⟨List.mem_cons_self, fun entry later => List.mem_cons_of_mem _ (ih entry later)⟩
  intro entry inside
  obtain ⟨path, value', first, found⟩ := (putEntries_get? distinct read).2 _ (members _ entry inside)
  have held := sorted.get?_mem inside
  rcases Value.get?_same same entry.1 with ⟨_, none⟩ | ⟨a, b, foundA, foundB, alike⟩
  · rw [held] at none
    cases none
  · rw [held] at foundB
    obtain rfl := Option.some.inj foundB
    obtain rfl := Option.some.inj (found.symm.trans foundA)
    exact ⟨path, _, first, alike⟩

/-- The slots of a record are read again as they were if the record is. -/
theorem setMembers_again (serves : Serves registry) {r r' : Record Value} {compiled : CompiledRecord}
    (shaped : r.Shaped registry) (known : registry.record? r.typeName = some compiled)
    (read : setMembers registry compiled.layout (compiled.fresh compiled.layout) (r.members fun _ => true) = .ok r')
    (same : r'.clearState.same r = true) {i : Nat} {field : Field} (here : r.layout.field? i = some field) :
    ∃ path value', valueOf registry path field.schema ((r.slot i).toJson field.schema) = .ok value' ∧
      value'.same (r.slot i) = true := by
  obtain ⟨_, fresh, _⟩ := serves.makes known
  have own := Registry.get?_of_record? known
  rw [shaped.layout] at own
  have regular := serves.regular shaped.layout
  have writes := setMembers_writes fresh read
  rw [← Option.some.inj own] at writes
  have filled : Fills r.layout (r.members fun _ => true) i :=
    (fills_iff regular).mpr ((names_members regular shaped.slots).mpr ⟨Layout.lt_of_field? here, rfl⟩)
  obtain ⟨name, json, other, inside, position, known', first⟩ := writes.written i filled
  obtain rfl := Option.some.inj (here.symm.trans known')
  obtain ⟨j, shown, hereJ, _, member⟩ := (Record.mem_members regular shaped.slots).mp inside
  obtain ⟨rfl, rfl⟩ := Prod.mk.inj member
  rw [regular.indexOf?_name hereJ] at position
  obtain rfl := Option.some.inj position
  obtain rfl := Option.some.inj (here.symm.trans hereJ)
  have alike := Value.getD_same (Value.same_record.mp same).2 j
  change (r'.clearState.slot j).same (r.slot j) = true at alike
  rw [Record.slot_clearState, Value.same_clearEntryStates] at alike
  exact ⟨_, _, first, alike⟩

/-- A single that is read again is finite, for every other one is shown as null. -/
theorem primitiveOf_finiteSingles {kind : Primitive} {value value' : Value}
    (fits : value.conforms (.primitive kind) = true)
    (read : primitiveOf path kind (value.toJson (.primitive kind)) = .ok value') : value.FiniteSingles := by
  refine (Value.flat_of_primitive fits).finiteSingles ?_
  rintro bits rfl
  apply Classical.byContradiction
  intro infinite
  rw [Value.conforms] at fits
  cases kind <;> cases fits
  rw [Value.toJson, Value.ofDouble_widen_null infinite] at read
  cases read

theorem setMembers_finiteSingles (serves : Serves registry) {r r' : Record Value} {compiled : CompiledRecord}
    (orderly : (Value.record r).Orderly registry) (known : registry.record? r.typeName = some compiled)
    (read : setMembers registry compiled.layout (compiled.fresh compiled.layout) (r.members fun _ => true) = .ok r')
    (alike : r'.clearState.same r = true) (parts : ∀ slot ∈ r.slots, ShowsSingles registry slot) :
    (Value.record r).FiniteSingles := by
  obtain ⟨shaped, filled⟩ := orderly.records r (.self _)
  refine Value.finiteSingles_record fun slot part_of => ?_
  obtain ⟨i, inside, rfl⟩ := Record.mem_slots part_of
  obtain ⟨field, here⟩ := Layout.exists_field (shaped.slots ▸ inside)
  obtain ⟨path, value', first, same⟩ := setMembers_again serves shaped known read alike here
  have declared := (serves.regular shaped.layout).schema (List.mem_of_getElem? here)
  exact parts _ part_of path field.schema value' declared (filled i field here) first same

/-- A branch is shown with its label, by which it is found again. -/
theorem Reads.inner_finiteSingles {branches : List Schema} (regular : (Schema.union branches).Regular)
    (tagged : (Schema.union branches).nullableInner? = none) {branch : Nat} {type : Schema} {inner value' : Value}
    (known : branches[branch]? = some type) (fits : inner.conforms type = true)
    (alike : value'.same (.union branch inner) = true) (part : ShowsSingles registry inner)
    (reads : Reads registry path (.union branches) ((Value.union branch inner).toJson (.union branches)) value') :
    inner.FiniteSingles := by
  rw [Value.toJson_union tagged known] at reads
  cases isNull : type.isNull with
  | true =>
    obtain rfl := Schema.eq_null isNull
    rw [Value.conforms] at fits
    cases inner with
    | null => exact Value.finiteSingles_null
    | _ => cases fits
  | false =>
    rw [isNull, if_neg Bool.false_ne_true] at reads
    cases reads with
    | labelled found read =>
      rw [regular.branchNamed? known] at found
      obtain ⟨rfl, rfl⟩ := Prod.mk.inj (Option.some.inj found)
      have declared := (regular.branch (List.mem_of_getElem? known)).2
      rw [Value.same, Bool.and_eq_true] at alike
      exact part _ type _ declared fits read alike.2

/-- One step inside a value that is read again. -/
theorem Reads.finiteSingles (serves : Serves registry) {schema : Schema} (regular : schema.Regular)
    (tagged : schema.nullableInner? = none) {value value' : Value} (fits : value.conforms schema = true)
    (orderly : value.Orderly registry) (alike : value'.same value = true)
    (parts : ∀ part ∈ value.parts, ShowsSingles registry part)
    (reads : Reads registry path schema (value.toJson schema) value') : value.FiniteSingles := by
  cases schema with
  | primitive kind =>
    cases reads with
    | primitive read => exact primitiveOf_finiteSingles fits read
  | enum e =>
    obtain ⟨ordinal, rfl, _⟩ := Value.conforms_enum.mp fits
    exact Value.finiteSingles_enum _
  | fixed f =>
    obtain ⟨data, rfl, _⟩ := Value.conforms_fixed.mp fits
    exact Value.finiteSingles_fixed _
  | record type =>
    obtain ⟨r, rfl, named⟩ := Value.conforms_record.mp fits
    rw [Record.toJson_record] at reads
    cases reads with
    | record known read => exact setMembers_finiteSingles serves orderly (named ▸ known) read alike parts
  | array element =>
    obtain ⟨items, rfl, each⟩ := Value.conforms_array.mp fits
    rw [Value.toJson, Schema.core_of_tagged tagged] at reads
    cases regular with
    | array regular =>
      cases reads with
      | array read =>
        refine Value.finiteSingles_array fun item part_of => ?_
        obtain ⟨path, value', first, same⟩ := itemsOf_again read alike item part_of
        exact parts item part_of path element value' regular (each item part_of) first same
  | map schema =>
    obtain ⟨m, rfl, each⟩ := Value.conforms_map.mp fits
    have sorted := orderly.sorted (.self _)
    rw [Value.toJson, Schema.core_of_tagged tagged] at reads
    dsimp only at reads
    rw [Json.ofMembers, Keyed.ofList_sorted (entriesToJson_sorted schema sorted)] at reads
    cases regular with
    | map regular =>
      cases reads with
      | map read =>
        refine Value.finiteSingles_map fun entry inside => ?_
        obtain ⟨path, value', first, same⟩ := putEntries_again sorted read alike entry inside
        exact parts _ (List.mem_map_of_mem inside) path schema value' regular (each entry inside) first same
  | union branches =>
    obtain ⟨branch, inner, type, rfl, known, fits⟩ :=
      (Value.conforms_tagged (Schema.nullPosition?_none tagged)).mp fits
    exact Value.finiteSingles_union
      (reads.inner_finiteSingles regular tagged known fits alike (parts inner List.mem_cons_self))

theorem showsSingles (serves : Serves registry) (value : Value) :
    value.Orderly registry → ShowsSingles registry value := by
  induction value using Value.parts_induction with
  | step value ih =>
    intro orderly path schema value' regular fits read alike
    have part {part : Value} (part_of : part ∈ value.parts) : ShowsSingles registry part :=
      ih part part_of (orderly.part part_of)
    rcases Value.conforms_core.mp fits with ⟨rfl, _⟩ | fits
    · exact Value.finiteSingles_null
    rw [valueOf_ok] at read
    split at read
    · -- only null is the same as null
      subst read
      have null := Value.same_isNull alike
      cases value with
      | null => exact Value.finiteSingles_null
      | _ => cases null
    · rw [← Value.toJson_core] at read
      exact read.finiteSingles serves regular.core (Schema.core_tagged schema) fits orderly alike
        fun inner part_of => part part_of

open Vocabulary (Runs Obtained)

/-- What is read of a document with all fields, by a parsed schema of compiled types, is read again from its own
document as it is, exactly if all its singles are finite. -/
theorem reread_iff {v : Vocabulary} {roots : List Schema} {registry held : Registry} (runs : Runs {} v)
    (compiled : Registry.compile v.catalog roots = .ok registry)
    (same : ∀ name, held.get? name = registry.get? name)
    (makes : ∀ {name compiled}, held.record? name = some compiled → held.Makes compiled.fresh compiled.layout)
    {schema : Schema} (obtained : v.Obtained schema) {json : Json} (isHeld : json.Held)
    (supplies : Supplies held schema json) {path : String} {value : Value}
    (read : valueOf held path schema json = .ok value) (path' : String) :
    (∃ value', valueOf held path' schema (value.toJson schema) = .ok value' ∧ value'.same value = true) ↔
      value.FiniteSingles := by
  have serves : Serves held := by
    refine ⟨fun known => ?_, makes⟩
    rw [same] at known
    exact Registry.compile_regular (runs.regular Vocabulary.regular_new) compiled known
  have own : MakesOwn held := fun _ _ known => (makes known).1
  have orderly := valueOf_orderly serves json isHeld path schema value supplies read
  have fits := valueOf_conforms own.named json path schema value read
  constructor
  · rintro ⟨value', again, alike⟩
    exact showsSingles serves value orderly path' schema value' obtained.regular fits again alike
  · exact fun finite => readsBack_of_orderly serves value orderly finite path' schema obtained.regular fits

end Document

/-! ### A reading and a number beyond the singles -/

namespace Reading

open Document

theorem runs : Vocabulary.Runs {} vocabulary := .parsed .nothing _ parse_documents

/-- A reading with all its fields. -/
def document : List (String × Json) :=
  [("level", .number (.double 0x3FF8000000000000)), ("named", .object []), ("next", .null),
    ("note", .object [("string", .string "calm")]), ("unit", .string "F")]

theorem document_held : (Json.object document).Held := by
  have scalar {json : Json} (number : ∀ n, json = .number n → n.Held) (none : json.parts = []) : json.Held := by
    refine .intro number ?_
    rw [none]
    exact List.forall_mem_nil _
  refine .intro nofun ?_
  change ∀ part ∈ [Json.number (.double 0x3FF8000000000000), .object [], .null,
    .object [("string", .string "calm")], .string "F"], part.Held
  simp only [List.forall_mem_cons]
  refine ⟨scalar ?_ rfl, scalar nofun rfl, scalar nofun rfl, .intro nofun ?_, scalar nofun rfl, List.forall_mem_nil _⟩
  · rintro _ ⟨⟩
    exact ⟨_, _, _, rfl⟩
  · exact List.forall_mem_singleton.mpr (scalar nofun rfl)

theorem document_supplies : Supplies registry (.record type) (.object document) := by
  have named : ∀ field ∈ layout.fields, field.name ∈ Keyed.keys document := by decide
  intro met members meets compiled known
  cases meets with
  | here core =>
    obtain rfl : type = met := Schema.record.inj core
    obtain rfl := Option.some.inj (show some _ = some compiled from known)
    exact named
  | entry core => cases core
  | field core outer inside found here meets =>
    -- no other record stands in the document
    obtain rfl := Schema.record.inj core
    obtain rfl := Option.some.inj (show some _ = some _ from outer)
    simp only [document, List.mem_cons, Prod.mk.injEq, List.not_mem_nil, or_false] at inside
    rcases inside with ⟨rfl, rfl⟩ | ⟨rfl, rfl⟩ | ⟨rfl, rfl⟩ | ⟨rfl, rfl⟩ | ⟨rfl, rfl⟩
    all_goals
      obtain rfl := Option.some.inj (show some _ = some _ from found)
      obtain rfl := Option.some.inj (show some _ = some _ from here)
    · cases meets
    · cases meets with
      | here core => cases core
      | entry _ inside => cases inside
      | field core => cases core
    · cases meets
    · cases meets with
      | here core => cases core
      | entry core => cases core
      | branch core found meets => cases meets
      | field core => cases core
    · cases meets

end Reading

theorem Document.reread_iff_reading :
    ∃ value, valueOf Reading.registry "Reading" (.record Reading.type) (.object Reading.document) = .ok value ∧
      ((∃ value', valueOf Reading.registry "Reading" (.record Reading.type) (value.toJson (.record Reading.type)) =
          .ok value' ∧ value'.same value = true) ↔ value.FiniteSingles) := by
  have obtained : Reading.vocabulary.Obtained (.record Reading.type) :=
    .parsed .nothing _ Reading.parse_documents List.mem_cons_self
  have read : ∃ value, valueOf Reading.registry "Reading" (.record Reading.type) (.object Reading.document) =
      .ok value := ⟨_, rfl⟩
  obtain ⟨value, read⟩ := read
  exact ⟨value, read, reread_iff Reading.runs Reading.compiled (fun _ => rfl) Reading.registry_built.sound.makes obtained
    Reading.document_held Reading.document_supplies read "Reading"⟩

/-- A number beyond the singles is read as the infinite one, whose document is null; that is no single. -/
theorem Document.single_beyond_range :
    Registry.compile Reading.vocabulary.catalog [.record Reading.type] = .ok Reading.registry ∧
      Reading.vocabulary.Obtained (.primitive .float) ∧ (Json.number (.double 0x7E37E43C8800759C)).Held ∧
      Supplies Reading.registry (.primitive .float) (.number (.double 0x7E37E43C8800759C)) ∧
      valueOf Reading.registry "$" (.primitive .float) (.number (.double 0x7E37E43C8800759C)) =
        .ok (.float 0x7F800000) ∧
      (Value.float 0x7F800000).toJson (.primitive .float) = .null ∧
      valueOf Reading.registry "$" (.primitive .float) ((Value.float 0x7F800000).toJson (.primitive .float)) =
        .error (.unfit "$" (.notPrimitive .float)) := by
  have level : (⟨"level", .primitive .float⟩ : FieldType) ∈ Reading.fields := List.mem_cons_self
  have fields : Reading.vocabulary.catalog.fields? Reading.type = some Reading.fields := rfl
  have beyond : single? (.number (.double 0x7E37E43C8800759C)) = some 0x7F800000 := by decide +kernel
  have infinite : ¬single.IsFinite (0x7F800000 : UInt32).toNat := by
    rw [Decimal.Format.isFinite_iff]
    decide
  have null : (Value.float 0x7F800000).toJson (.primitive .float) = .null := by
    rw [Value.toJson, Value.ofDouble_widen_null infinite]
  refine ⟨Reading.compiled, .field Reading.runs fields level, .intro ?_ (List.forall_mem_nil _), ?_, ?_, null, ?_⟩
  · rintro _ ⟨⟩
    exact Decimal.Format.isFinite_iff.mpr (by decide)
  · intro type members meets
    cases meets
  · have read : primitiveOf "$" .float (.number (.double 0x7E37E43C8800759C)) = .ok (.float 0x7F800000) := by
      rw [primitiveOf, beyond]
      rfl
    exact valueOf_ok.mpr (.primitive read)
  · rw [null]
    rfl

end TrackedRecord
