import TrackedRecord.Proofs.Record.ReadBack

/-!
# The round trip through documents

Every value of a parsed schema that a document can show is read from its document. A record is read from the
document of its readable fields, and these are then its readable and its dirty fields.
-/

namespace TrackedRecord

namespace Vocabulary

/-- The schemas that calls on a new vocabulary give, the named types and the fields that they leave there, and
what stands in such a schema. -/
inductive Obtained : Vocabulary → Schema → Prop where
  | parsed {v v' : Vocabulary} {roots : List Schema} {schema : Schema} (runs : Runs {} v) (call : Call)
      (run : call.parse v = .ok roots v') (member : schema ∈ roots) : Obtained v' schema
  | named {v : Vocabulary} {full : String} {schema : Schema} (runs : Runs {} v)
      (known : v.named? full = some schema) : Obtained v schema
  | field {v : Vocabulary} {r : RecordRef} {fields : List FieldType} {field : FieldType} (runs : Runs {} v)
      (known : v.catalog.fields? r = some fields) (member : field ∈ fields) : Obtained v field.schema
  | element {v : Vocabulary} {element : Schema} (obtained : Obtained v (.array element)) : Obtained v element
  | value {v : Vocabulary} {value : Schema} (obtained : Obtained v (.map value)) : Obtained v value
  | branch {v : Vocabulary} {branches : List Schema} {branch : Schema} (obtained : Obtained v (.union branches))
      (member : branch ∈ branches) : Obtained v branch
  | later {v v' : Vocabulary} {schema : Schema} (obtained : Obtained v schema) (runs : Runs v v') :
      Obtained v' schema

theorem Obtained.regular {v : Vocabulary} {schema : Schema} (obtained : v.Obtained schema) : schema.Regular := by
  induction obtained with
  | parsed runs call run member => exact ((call.parse_steady _ (runs.regular regular_new)).ok run).2 _ member
  | named runs known => exact (runs.regular regular_new).named known
  | field runs known member => exact (((runs.regular regular_new).fields known).each _ member).2
  | element _ ih => cases ih; assumption
  | value _ ih => cases ih; assumption
  | branch _ member ih => exact (ih.branch member).2
  | later _ _ ih => exact ih

end Vocabulary

namespace Document

open Vocabulary (Runs Obtained)

variable {registry : Registry}

theorem recordOf_readable (serves : Serves registry) {r : Record Value} {compiled : CompiledRecord}
    (shaped : r.Shaped registry) (known : registry.record? r.typeName = some compiled)
    (default : compiled.fresh = Record.empty)
    (each : ∀ i field, r.isReadable i = true → r.layout.field? i = some field →
      (r.slot i).conforms field.schema = true ∧ (r.slot i).Whole registry) :
    ∃ r', recordOf registry compiled r.readableToJson = .ok r' ∧ r'.layout = r.layout ∧
      r'.readable = r.readable ∧ r'.dirty = r.readable ∧
      ∀ i, r.isReadable i = true → (r'.slot i).same (r.slot i) = true := by
  have regular : r.layout.Regular := serves.regular shaped.layout
  have layout : compiled.layout = r.layout := by
    have found := Registry.get?_of_record? known
    rw [shaped.layout] at found
    exact (Option.some.inj found).symm
  have shows : Shows registry r (r.members r.isReadable) := shows_members regular shaped.slots
    fun i field isReadable found =>
      have ⟨fits, whole⟩ := each i field isReadable found
      ⟨fits, readsBack serves _ whole⟩
  have empty : (Record.empty r.layout).Shaped registry := (Record.empty_wellFormed shaped.layout).1
  have start : (Record.empty r.layout).layout = r.layout := rfl
  obtain ⟨r', run, shaped', takes⟩ := setMembers_takes regular start empty shows
  have names (i : Nat) : Names r.layout (r.members r.isReadable) i ↔ r.isReadable i = true := by
    rw [names_members regular shaped.slots]
    exact ⟨And.right, fun isReadable => ⟨shaped.readableLen ▸ FieldBits.lt_of_get isReadable, isReadable⟩⟩
  -- bits that were clear and are set for the fields with members
  have marked (bits : FieldBits) (formed : bits.WellFormed) (len : bits.len = r'.layout.fieldCount)
      (set : ∀ i, bits.get i = true ↔
        (FieldBits.new r.layout.fieldCount).get i = true ∨ Names r.layout (r.members r.isReadable) i) :
      bits = r.readable := by
    refine FieldBits.ext formed shaped.readable ?_ fun i => Bool.eq_iff_iff.mpr ?_
    · rw [len, takes.layout, shaped.readableLen]
      rfl
    · rw [set, FieldBits.get_new, names]
      simp [Record.isReadable]
  refine ⟨r', ?_, takes.layout, ?_, ?_, fun i isReadable => takes.slot i ((names i).mpr isReadable)⟩
  · rw [Record.readableToJson_eq, recordOf, default, layout]
    exact run
  · exact marked r'.readable shaped'.readable shaped'.readableLen takes.readable
  · exact marked r'.dirty shaped'.dirty shaped'.dirtyLen takes.dirty

/-- Values and records of parsed schemas come back from their documents, whatever makes the instances of nested
types. -/
theorem valueOf_toJson {v : Vocabulary} {roots : List Schema} {held : Registry} (runs : Runs {} v)
    (compiled : Registry.compile v.catalog roots = .ok registry)
    (same : ∀ name, held.get? name = registry.get? name)
    (makes : ∀ {name compiled}, held.record? name = some compiled → held.Makes compiled.fresh compiled.layout) :
    (∀ schema value, v.Obtained schema → value.conforms schema = true → value.Whole held →
      ∀ path, ∃ value', valueOf held path schema (value.toJson schema) = .ok value' ∧ value'.same value = true) ∧
    ∀ (r : Record Value) compiled, r.Shaped held → held.record? r.typeName = some compiled →
      compiled.fresh = Record.empty →
      (∀ i field, r.isReadable i = true → r.layout.field? i = some field →
        (r.slot i).conforms field.schema = true ∧ (r.slot i).Whole held) →
      ∃ r', recordOf held compiled r.readableToJson = .ok r' ∧ r'.layout = r.layout ∧
        r'.readable = r.readable ∧ r'.dirty = r.readable ∧
        ∀ i, r.isReadable i = true → (r'.slot i).same (r.slot i) = true := by
  have serves : Serves held := by
    refine ⟨fun known => ?_, makes⟩
    rw [same] at known
    exact Registry.compile_regular (runs.regular Vocabulary.regular_new) compiled known
  constructor
  · intro schema value obtained fits whole path
    exact readsBack serves value whole path schema obtained.regular fits
  · intro r compiled shaped known default each
    exact recordOf_readable serves shaped known default each

end Document

namespace Reading

/-- Readings with a number, a symbol, a note of one of three kinds, perhaps another reading, and readings by
name. -/
def documents : List Json :=
  [Shop.record "Reading"
    [("level", .string "float"),
      ("unit", .object [("name", .string "Unit"), ("symbols", .array [.string "C", .string "F"]),
        ("type", .string "enum")]),
      ("note", .array [.string "null", .string "string", .string "int"]),
      ("next", .array [.string "null", .string "Reading"]),
      ("named", .object [("type", .string "map"), ("values", .string "Reading")])]]

def nodes : List Node :=
  [.record ⟨some "Reading", none⟩ none
    (some [⟨true, some "level", some (.name "float")⟩,
      ⟨true, some "unit", some (.enum ⟨some "Unit", none⟩ (some [some "C", some "F"]))⟩,
      ⟨true, some "note", some (.union [.name "null", .name "string", .name "int"])⟩,
      ⟨true, some "next", some (.union [.name "null", .name "Reading"])⟩,
      ⟨true, some "named", some (.map (some (.name "Reading")))⟩])]

def unit : EnumType := ⟨"Unit", none, ["C", "F"]⟩

def type : RecordRef := ⟨"Reading", none, 0⟩

def fields : List FieldType :=
  [⟨"level", .primitive .float⟩, ⟨"unit", .enum unit⟩,
    ⟨"note", .union [.primitive .null, .primitive .string, .primitive .int]⟩,
    ⟨"next", Schema.nullable (.record type)⟩, ⟨"named", .map (.record type)⟩]

def layout : Layout := ⟨"Reading", "Reading", none, Layout.fieldsOf fields⟩

def vocabulary : Vocabulary :=
  ⟨⟨[⟨"Reading", none, none, some (FieldSchema.numbered fields)⟩]⟩, [("Reading", .record type), ("Unit", .enum unit)]⟩

def registry : Registry := { records := [{ type, layout }], enums := [unit] }

theorem parse_documents :
    (Vocabulary.Call.batch documents).parse {} = .ok [.record type] vocabulary := by
  have nodesOf : documents.map Node.ofJson = nodes := rfl
  have toReading (v : Vocabulary) := v.lookup?_bare "Reading" (by simp)
  rw [Vocabulary.Call.parse, Vocabulary.parseDocuments, Vocabulary.parseNodes, nodesOf]
  simp only [nodes, Vocabulary.resolveAll, Vocabulary.resolve, Vocabulary.resolveFields,
    Vocabulary.resolveBranches, Vocabulary.resolveName, toReading]
  rfl

theorem compiled : Registry.compile vocabulary.catalog [.record type] = .ok registry := rfl

theorem registry_built : registry.Built := .compile compiled (by decide)

def record (slots : List Value) : Record Value := { Record.empty layout with slots }

def last : Record Value := record [.float 0x3FC00000, .enum 1, .union 1 (.string "calm"), .null, .map {}]

/-- A reading with the last one behind it and under a name, and with all but its symbol readable. -/
def first : Record Value :=
  [0, 2, 3, 4].foldl Record.touch
    (record [.float 0xC0200000, .enum 0, .union 0 .null, .record last, .map ⟨[("same", .record last)], []⟩])

theorem shaped_record {slots : List Value} (length : slots.length = layout.fieldCount) :
    (record slots).Shaped registry :=
  ⟨rfl, length, FieldBits.new_wellFormed _, rfl, FieldBits.new_wellFormed _, rfl⟩

theorem whole_float {bits : UInt32} (finite : Decimal.single.IsFinite bits.toNat) :
    (Value.float bits).Whole registry := by
  refine .flat ⟨rfl, fun _ => nofun⟩ trivial ?_ nofun
  rintro _ ⟨⟩
  exact finite

theorem whole_enum {ordinal : Nat} (small : ordinal < 2) : (Value.enum ordinal).Whole registry := by
  refine .flat (Value.flat_enum _) ?_ nofun nofun
  change ordinal < 2 ^ 64
  omega

theorem whole_null : Value.null.Whole registry := .flat Value.flat_null trivial nofun nofun

theorem last_whole : (Value.record last).Whole registry := by
  have note : (Value.string "calm").Whole registry := .flat ⟨rfl, fun _ => nofun⟩ trivial nofun nofun
  have none : (StateMap.empty : StateMap Value).Shaped :=
    ⟨List.Pairwise.nil, List.Pairwise.nil, Wire.wordBound_pos, Wire.wordBound_pos⟩
  refine .record (shaped_record rfl) ?_ ?_
  · intro i field known
    rcases i with _ | _ | _ | _ | _ | i <;> cases known <;> rfl
  · change ∀ slot ∈ [Value.float 0x3FC00000, .enum 1, .union 1 (.string "calm"), .null, .map {}], _
    simp only [List.forall_mem_cons]
    exact ⟨whole_float ⟨_, _, _, rfl⟩, whole_enum (by omega), .union (by decide) note, whole_null,
      .map none (List.forall_mem_nil _), List.forall_mem_nil _⟩

theorem first_shaped : first.Shaped registry := by
  have bits := ((((FieldBits.new_wellFormed 5).set 0).set 2).set 3).set 4
  exact ⟨rfl, rfl, bits, rfl, bits, rfl⟩

theorem first_slots : ∀ slot ∈ first.slots, slot.Whole registry := by
  have same : (⟨[("same", .record last)], []⟩ : StateMap Value).Shaped :=
    ⟨List.pairwise_singleton _ _, List.Pairwise.nil, by decide, Wire.wordBound_pos⟩
  change ∀ slot ∈ [Value.float 0xC0200000, .enum 0, .union 0 .null, .record last,
    .map ⟨[("same", .record last)], []⟩], _
  simp only [List.forall_mem_cons]
  exact ⟨whole_float ⟨_, _, _, rfl⟩, whole_enum (by omega), .union (by decide) whole_null, last_whole,
    .map same (List.forall_mem_singleton.mpr last_whole), List.forall_mem_nil _⟩

theorem first_filled : first.Filled := by
  intro i field known
  rcases i with _ | _ | _ | _ | _ | i <;> cases known <;> rfl

end Reading

theorem Document.valueOf_toJson_reading :
    Registry.compile Reading.vocabulary.catalog [.record Reading.type] = .ok Reading.registry ∧
      Reading.vocabulary.Obtained (.record Reading.type) ∧
      (∃ value', valueOf Reading.registry "Reading" (.record Reading.type)
          ((Value.record Reading.first).toJson (.record Reading.type)) = .ok value' ∧
        value'.same (.record Reading.first) = true) ∧
      ∃ r', recordOf Reading.registry ⟨Reading.type, Reading.layout, Record.empty⟩ Reading.first.readableToJson =
          .ok r' ∧ r'.layout = Reading.first.layout ∧ r'.readable = Reading.first.readable ∧
        r'.dirty = Reading.first.readable ∧
        ∀ i, Reading.first.isReadable i = true → (r'.slot i).same (Reading.first.slot i) = true := by
  have runs : Vocabulary.Runs {} Reading.vocabulary := .parsed .nothing _ Reading.parse_documents
  have obtained : Reading.vocabulary.Obtained (.record Reading.type) :=
    .parsed .nothing _ Reading.parse_documents List.mem_cons_self
  obtain ⟨values, records⟩ := valueOf_toJson runs Reading.compiled (fun _ => rfl) Reading.registry_built.sound.makes
  refine ⟨Reading.compiled, obtained, ?_, ?_⟩
  · have whole : (Value.record Reading.first).Whole Reading.registry :=
      .record Reading.first_shaped Reading.first_filled Reading.first_slots
    exact values _ _ obtained rfl whole "Reading"
  · refine records Reading.first _ Reading.first_shaped rfl rfl fun i field _ known =>
      ⟨Reading.first_filled i field known, ?_⟩
    rcases Record.slot_mem_or_null Reading.first i with present | absent
    · exact Reading.first_slots _ present
    · rw [absent]
      exact Reading.whole_null

end TrackedRecord
