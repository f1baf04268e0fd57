import TrackedRecord.Proofs.Registry.Layouts
import TrackedRecord.Proofs.Registry.Leads
import TrackedRecord.Proofs.Schema.Names

/-!
# Well-formed schemas

Whatever calls have been made, parsed or refused, all that the roots of the parsed ones lead to is well formed:
names are names, no two types share one, and fields, symbols and branches are told apart.
-/

namespace TrackedRecord

open Text (Identifier Dotted)

/-- The namespace and the bare name of an enum, a fixed or a record type. -/
def Schema.ownName? : Schema → Option (Option String × String)
  | .enum e => some (e.scope, e.name)
  | .fixed f => some (f.scope, f.name)
  | .record r => some (r.scope, r.name)
  | _ => none

namespace Catalog

/-- What some roots lead to keeps to the rules for names, fields, symbols and branches. -/
structure WellFormed (catalog : Catalog) (roots : List Schema) : Prop where
  names : ∀ {schema scope name}, catalog.Leads roots schema → schema.ownName? = some (scope, name) →
    Identifier name ∧ ∀ inside, scope = some inside → Dotted inside
  unique : ∀ {a b}, catalog.Leads roots a → catalog.Leads roots b → a.IsNamed → b.IsNamed →
    a.typeName = b.typeName → a = b
  fields : ∀ {r fields}, catalog.Leads roots (.record r) → catalog.fieldSchemas? r = some fields →
    (∀ field ∈ fields, Identifier field.name) ∧ (fields.map fun field => field.name).Nodup ∧
      ∀ {i} {field : FieldSchema}, fields[i]? = some field → field.position = i
  symbols : ∀ {e}, catalog.Leads roots (.enum e) →
    e.symbols ≠ [] ∧ (∀ symbol ∈ e.symbols, Identifier symbol) ∧ e.symbols.Nodup
  branches : ∀ {branches}, catalog.Leads roots (.union branches) →
    branches ≠ [] ∧ (∀ branch ∈ branches, branch.isUnion = false) ∧ (branches.map Schema.typeName).Nodup ∧
      branches.countP Schema.isNull ≤ 1

end Catalog

variable {catalog : Catalog} {roots : List Schema} {schema : Schema}

/-- All nodes are regular where the roots and the fields of all records are. -/
theorem Catalog.Leads.regular
    (fields : ∀ {r fields}, catalog.fields? r = some fields → FieldType.Regular fields)
    (each : ∀ root ∈ roots, root.Regular) (leads : catalog.Leads roots schema) : schema.Regular := by
  induction leads with
  | root member => exact each _ member
  | element _ ih =>
    cases ih with
    | array regular => exact regular
  | value _ ih =>
    cases ih with
    | map regular => exact regular
  | branch _ member ih =>
    cases ih with
    | union _ _ _ regular => exact regular _ member
  | field _ defined member => exact ((fields defined).each _ member).2

theorem Schema.Regular.names (regular : schema.Regular) {scope : Option String} {name : String}
    (own : schema.ownName? = some (scope, name)) : Vocabulary.ValidName scope name := by
  cases regular with
  | enum named | fixed named | record named =>
    cases own
    exact named
  | _ => cases own

/-- Null has one label, so it is not two branches. -/
theorem Schema.countP_isNull_le {branches : List Schema} (labels : (branches.map Schema.typeName).Nodup) :
    branches.countP Schema.isNull ≤ 1 := by
  have label : ∀ branch ∈ branches, branch.isNull = true → (branch.typeName == "null") = true := by
    intro branch _ isNull
    rw [eq_null isNull]
    rfl
  calc
    branches.countP Schema.isNull ≤ branches.countP fun branch => branch.typeName == "null" := List.countP_mono_left label
    _ = (branches.map Schema.typeName).count "null" := by
      rw [List.count, List.countP_map]
      rfl
    _ ≤ 1 := List.nodup_iff_count_le_one.mp labels "null"

namespace Vocabulary

/-- Roots that calls have given, and what the calls have made of the vocabulary, whether they parsed or were
refused. -/
inductive Session : List Schema → Vocabulary → Prop where
  | new : Session [] {}
  | parsed {roots more : List Schema} {v v' : Vocabulary} (session : Session roots v) (call : Call)
    (run : call.parse v = .ok more v') : Session (roots ++ more) v'
  | refused {roots : List Schema} {v v' : Vocabulary} {e : SchemaError} (session : Session roots v) (call : Call)
    (run : call.parse v = .error e v') : Session roots v'

variable {v : Vocabulary}

/-- What every call of a session keeps. -/
structure Session.Kept (roots : List Schema) (v : Vocabulary) : Prop where
  consistent : v.Consistent
  regular : v.Regular
  roots : ∀ root ∈ roots, root.Regular ∧ root.Bound v.named

theorem Session.kept (session : Session roots v) : Session.Kept roots v := by
  induction session with
  | new => exact ⟨consistent_new, regular_new, List.forall_mem_nil _⟩
  | parsed _ call run ih =>
    obtain ⟨parses, bound⟩ := (call.parse_ends ih.consistent).ok run
    obtain ⟨regular, regularRoots⟩ := (call.parse_steady _ ih.regular).ok run
    refine ⟨parses.consistent, regular, fun root member => ?_⟩
    rcases List.mem_append.mp member with old | new
    · exact ⟨(ih.roots root old).1, (ih.roots root old).2.mono parses.kept⟩
    · exact ⟨regularRoots root new, bound root new⟩
  | refused _ call run ih =>
    have adds := (call.parse_ends ih.consistent).error run
    have regular := (call.parse_steady _ ih.regular).error run
    refine ⟨adds.consistent, regular, fun root member => ?_⟩
    exact ⟨(ih.roots root member).1, (ih.roots root member).2.mono adds.kept⟩

/-- Nothing that calls do, whether they parse or are refused, makes what the given roots lead to ill formed. -/
theorem session_wellFormed (session : Session roots v) : v.catalog.WellFormed roots := by
  have kept := session.kept
  have regular {schema : Schema} (leads : v.catalog.Leads roots schema) : schema.Regular :=
    leads.regular kept.regular.fields fun root member => (kept.roots root member).1
  constructor
  case names =>
    intro schema scope name leads own
    obtain ⟨bare, names⟩ := (regular leads).names own
    exact ⟨isName_iff.mp bare, fun inside same => dotted_of_names (names inside same)⟩
  case unique =>
    intro a b first second namedA namedB same
    have known {type : Schema} (leads : v.catalog.Leads roots type) (named : type.IsNamed) :
        Keyed.get? type.typeName v.named = some type :=
      kept.consistent.get?_of_reachable (fun root member => (kept.roots root member).2)
        ((Catalog.leads_iff named).mp leads)
    have knownA := known first namedA
    rw [same, known second namedB] at knownA
    exact (Option.some.inj knownA).symm
  case fields =>
    intro r fields _ defined
    have types : v.catalog.fields? r = some (fields.map FieldSchema.toFieldType) := by
      rw [Catalog.fields?_eq, defined, Option.map_some]
    have regular := kept.regular.fields types
    refine ⟨fun field member => ?_, ?_, kept.regular.made.position defined⟩
    · exact isName_iff.mp (regular.each _ (List.mem_map_of_mem member)).1
    · have distinct := regular.distinct
      rwa [List.map_map] at distinct
  case symbols =>
    intro e leads
    cases regular leads with
    | enum _ nonempty distinct symbols =>
      exact ⟨nonempty, fun symbol member => isName_iff.mp (symbols symbol member), distinct⟩
  case branches =>
    intro branches leads
    cases regular leads with
    | union nonempty labels noUnion _ => exact ⟨nonempty, noUnion, labels, Schema.countP_isNull_le labels⟩

/-- Orders and lines after a batch that is refused because it defines orders once more. -/
theorem session_wellFormed_shop :
    Session [.record Shop.order, .record Shop.line] Shop.vocabulary ∧
      Shop.vocabulary.catalog.WellFormed [.record Shop.order, .record Shop.line] := by
  have parsed := Session.new.parsed (.batch Shop.documents) Shop.parse_documents
  have again : Session [.record Shop.order, .record Shop.line] Shop.vocabulary :=
    parsed.refused (.batch Shop.documents) rfl
  exact ⟨again, session_wellFormed again⟩

end Vocabulary

end TrackedRecord
