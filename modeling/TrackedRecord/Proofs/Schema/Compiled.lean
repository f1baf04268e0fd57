import TrackedRecord.Proofs.Registry.Reachable
import TrackedRecord.Proofs.Schema.Regular
import TrackedRecord.Proofs.Wire.Closed

/-!
# Parsed schemas are compiled

Roots that parse reach records with fields only, each the one that is known by its name, so they are compiled
completely. The registry has every type that its records mention, and nothing that is done with values of its
types runs into one that is not compiled.
-/

namespace TrackedRecord

/-- The declaration of the field. -/
def Field.declared (field : Field) : FieldType := ⟨field.name, field.schema⟩

theorem Layout.fieldsOf_declared (fields : List FieldType) :
    (Layout.fieldsOf fields).map Field.declared = fields := by
  rw [Layout.fieldsOf, List.map_map]
  exact List.zipIdx_map_fst 0 fields

namespace Registry

open Result (Raises)

variable {catalog : Catalog} {roots : List Schema} {registry held : Registry}

/-- A registry of all records that some roots reach, which is never found without a type that it needs. What
is said of codecs and of plain values holds as well where makers have been put into the registry. -/
structure Serves (catalog : Catalog) (roots : List Schema) (registry : Registry) : Prop where
  layouts : ∀ {r}, Reachable catalog roots (.record r) → ∃ fields layout, catalog.fields? r = some fields ∧
    registry.get? r.fullName = some layout ∧ layout.fullName = r.fullName ∧
      layout.fields.map Field.declared = fields
  closed : ∀ {name layout}, registry.get? name = some layout → ∀ field ∈ layout.fields,
    ∀ r, .record r ∈ field.schema.mentioned → Reachable catalog roots (.record r)
  codecs : ∀ {held : Registry}, (∀ name, held.get? name = registry.get? name) → ∀ {r settings},
    Reachable catalog roots (.record r) → Raises Wire.Error.Compiled (Wire.Codec.new held r.fullName settings)
  encoding : ∀ (codec : Wire.Codec) r,
    Raises Wire.Error.Compiled (codec.encode r) ∧ Raises Wire.Error.Compiled (codec.encodeFramed r)
  decoding : ∀ {codec : Wire.Codec}, codec.Made → (∀ name, codec.registry.get? name = registry.get? name) →
    ∀ call : Wire.Codec.Call, (∀ r, call.reuse = some r → r.WellFormed codec.registry) →
      Raises Wire.Error.Compiled (codec.answer call).1
  plainEncoding : ∀ maxDepth schema value, Raises Wire.Error.Compiled (Wire.Plain.encode maxDepth schema value)
  plainDecoding : ∀ {held : Registry}, held.Built → (∀ name, held.get? name = registry.get? name) →
    ∀ {schema : Schema}, (∀ r, .record r ∈ schema.mentioned → Reachable catalog roots (.record r)) →
      ∀ settings maxDepth reuse, (∀ value, reuse = some value → value.WellFormed held) →
        ∀ c c' e, Wire.Plain.decode held settings maxDepth schema reuse c = .error e c' → e.Compiled

theorem Complete.reachable (complete : Complete catalog roots registry) {name : String} {layout : Layout}
    (found : registry.get? name = some layout) {field : Field} (member : field ∈ layout.fields) {r : RecordRef}
    (mentioned : .record r ∈ field.schema.mentioned) : Reachable catalog roots (.record r) := by
  obtain ⟨owner, reachable, made⟩ := complete.of_get? found
  obtain ⟨fields, defined, _, rfl⟩ := layout_of_ok.mp made
  have declared : field.declared ∈ fields := by
    rw [← Layout.fieldsOf_declared fields]
    exact List.mem_map_of_mem member
  exact .field reachable defined declared mentioned

/-- A reachable record is compiled, also in a registry with other makers. -/
theorem Complete.known (complete : Complete catalog roots registry)
    (compilable : Compilable catalog (Reachable catalog roots))
    (same : ∀ name, held.get? name = registry.get? name)
    {r : RecordRef} (reachable : Reachable catalog roots (.record r)) : (held.get? r.fullName).isSome := by
  obtain ⟨layout, found, _⟩ := complete.get? compilable reachable
  rw [same, found]
  rfl

theorem Complete.closed (complete : Complete catalog roots registry)
    (compilable : Compilable catalog (Reachable catalog roots))
    (same : ∀ name, held.get? name = registry.get? name) :
    held.Closed := by
  intro name layout found field member r mentioned
  rw [same] at found
  exact complete.known compilable same (complete.reachable found member mentioned)

theorem Complete.serves (complete : Complete catalog roots registry)
    (compilable : Compilable catalog (Reachable catalog roots)) : Serves catalog roots registry where
  layouts reachable := by
    obtain ⟨layout, found, made⟩ := complete.get? compilable reachable
    obtain ⟨fields, defined, _, rfl⟩ := layout_of_ok.mp made
    exact ⟨fields, _, defined, found, rfl, Layout.fieldsOf_declared fields⟩
  closed found _ member _ mentioned := complete.reachable found member mentioned
  codecs same _ settings reachable :=
    Wire.Codec.new_compiled (complete.known compilable same reachable) settings
  encoding codec r := ⟨codec.encode_compiled r, codec.encodeFramed_compiled r⟩
  decoding made same := Wire.Codec.answer_compiled made.sound (complete.closed compilable same)
  plainEncoding maxDepth schema value :=
    (Wire.Plain.encode_mismatches maxDepth schema value).mono fun _ => Wire.Error.Mismatch.compiled
  plainDecoding {held} built same {schema} mentions settings maxDepth reuse formed c c' e failed := by
    have covers : held.Covers schema := fun r mentioned => complete.known compilable same (mentions r mentioned)
    have reports : Wire.Reports (c.pos + c.rest.length)
        (Wire.Plain.decode held settings maxDepth schema reuse) :=
      Wire.Plain.decode_reports built.sound (complete.closed compilable same) maxDepth covers formed
    exact (reports.error failed rfl).compiled

end Registry

namespace Vocabulary

open Registry (Reachable Compilable Serves)

variable {v v' : Vocabulary} {roots : List Schema}

/-- What is reached is what is known by its name. -/
theorem Consistent.get?_of_reachable (consistent : v.Consistent) (bound : ∀ root ∈ roots, root.Bound v.named)
    {type : Schema} (reachable : Reachable v.catalog roots type) :
    Keyed.get? type.typeName v.named = some type := by
  cases reachable with
  | root member mentioned => exact (bound _ member).known type mentioned
  | field _ defined member mentioned => exact (consistent.bound defined _ member).known type mentioned

theorem Settled.compilable (settled : v.Settled) (made : v.catalog.Made)
    (bound : ∀ root ∈ roots, root.Bound v.named) :
    Compilable v.catalog (Reachable v.catalog roots) where
  named reachable := (settled.named (settled.get?_of_reachable bound reachable)).1
  unique {a b} first second same := by
    have known := settled.get?_of_reachable bound first
    rw [same, settled.get?_of_reachable bound second] at known
    exact (Option.some.inj known).symm
  defined {r} reachable := by
    have known := settled.get?_of_reachable bound reachable
    obtain ⟨fields, defined⟩ := Option.isSome_iff_exists.mp (settled.defined known)
    refine ⟨fields, defined, made.distinct defined, fun field member => (settled.bound defined field member).flat, ?_⟩
    intro type mentioned
    obtain ⟨field, member, inField⟩ := Registry.mem_fieldTypes.mp mentioned
    exact .field reachable defined member inField

/-- After calls that have all succeeded, the roots of a batch that parses are compiled, and the registry has a
layout with its fields for every record that the roots or the fields of other records mention. -/
theorem parsed_compiles {documents : List Json} (parsed : v.Parsed)
    (run : parseDocuments documents v = .ok roots v') :
    ∃ registry, Registry.compile v'.catalog roots = .ok registry ∧ Serves v'.catalog roots registry := by
  obtain ⟨parses, bound⟩ := (parseDocuments_ends parsed.settled.toConsistent).ok run
  have settled := parsed.settled.parse parses
  have regular := (Parsed.call parsed (.batch documents) run).regular
  have compilable := settled.compilable regular.made bound
  obtain ⟨registry, compiled, complete⟩ :=
    Registry.compile_ok compilable fun root member => (bound root member).flat
  exact ⟨registry, compiled, complete.serves compilable⟩

end Vocabulary

namespace Shop

def record (name : String) (fields : List (String × Json)) : Json :=
  .object [("type", .string "record"), ("name", .string name),
    ("fields", .array (fields.map fun (name, type) => .object [("name", .string name), ("type", type)]))]

/-- Orders with lines that are defined behind them and lead back to orders. -/
def documents : List Json :=
  [record "Order"
      [("lines", .object [("type", .string "array"), ("items", .string "Line")]),
        ("next", .array [.string "null", .string "Order"])],
    record "Line" [("orders", .object [("type", .string "map"), ("values", .string "Order")])]]

def nodes : List Node :=
  [.record ⟨some "Order", none⟩ none
      (some [⟨true, some "lines", some (.array (some (.name "Line")))⟩,
        ⟨true, some "next", some (.union [.name "null", .name "Order"])⟩]),
    .record ⟨some "Line", none⟩ none (some [⟨true, some "orders", some (.map (some (.name "Order")))⟩])]

def order : RecordRef := ⟨"Order", none, 0⟩

def line : RecordRef := ⟨"Line", none, 1⟩

def orderFields : List FieldType :=
  [⟨"lines", .array (.record line)⟩, ⟨"next", Schema.nullable (.record order)⟩]

def lineFields : List FieldType := [⟨"orders", .map (.record order)⟩]

def vocabulary : Vocabulary where
  catalog :=
    ⟨[⟨"Order", none, none, some (FieldSchema.numbered orderFields)⟩,
      ⟨"Line", none, none, some (FieldSchema.numbered lineFields)⟩]⟩
  named := [("Line", .record line), ("Order", .record order)]

theorem parse_documents :
    Vocabulary.parseDocuments documents {} = .ok [.record order, .record line] vocabulary := by
  have nodesOf : documents.map Node.ofJson = nodes := rfl
  have toLine (v : Vocabulary) := v.lookup?_bare "Line" (by simp)
  have toOrder (v : Vocabulary) := v.lookup?_bare "Order" (by simp)
  rw [Vocabulary.parseDocuments, Vocabulary.parseNodes, nodesOf]
  simp only [nodes, Vocabulary.resolveAll, Vocabulary.resolve, Vocabulary.resolveFields,
    Vocabulary.resolveBranches, Vocabulary.resolveName, toLine, toOrder]
  rfl

theorem parsed_compiles_shop :
    Vocabulary.Parsed {} ∧
      Vocabulary.parseDocuments documents {} = .ok [.record order, .record line] vocabulary ∧
      ∃ registry, Registry.compile vocabulary.catalog [.record order, .record line] = .ok registry ∧
        Registry.Serves vocabulary.catalog [.record order, .record line] registry :=
  ⟨.new, parse_documents, Vocabulary.parsed_compiles .new parse_documents⟩

end Shop

end TrackedRecord
