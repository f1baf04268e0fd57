import TrackedRecord.Proofs.Registry.Described
import TrackedRecord.Proofs.Registry.Leads

/-!
# Compiling finds exactly what roots lead to

Where no two of the types that the roots lead to have one name, compiling fails exactly at a union right inside
another one and at a record that was never defined. Otherwise each type that the roots lead to is listed once,
level by level, and each record is found by its name with a layout of its fields.
-/

namespace TrackedRecord

namespace Registry

variable {catalog : Catalog} {roots : List Schema} {registry : Registry}

/-- A registry of the types that the roots lead to and of no others. They stand level by level, up to an empty one;
the level of a type is the least number of steps that reach it. -/
structure Exact (catalog : Catalog) (roots : List Schema) (registry : Registry) : Prop where
  records : ∀ {r}, r ∈ registry.records.map CompiledRecord.type ↔ catalog.Leads roots (.record r)
  enums : ∀ {e}, e ∈ registry.enums ↔ catalog.Leads roots (.enum e)
  fixed : ∀ {f}, f ∈ registry.fixed ↔ catalog.Leads roots (.fixed f)
  once : (registry.records.map CompiledRecord.type).Nodup ∧ registry.enums.Nodup ∧ registry.fixed.Nodup
  order : ∃ depth types, (levelAt catalog roots depth).types = [] ∧
    types = ((List.range depth).flatMap fun less => (levelAt catalog roots less).types) ∧
    registry.records.map CompiledRecord.type = types.filterMap Schema.record? ∧
    registry.enums = types.filterMap Schema.enum? ∧ registry.fixed = types.filterMap Schema.fixed?
  levels : ∀ {depth type}, type ∈ (levelAt catalog roots depth).types ↔
    ReachedIn catalog roots depth type ∧ ∀ less < depth, ¬ReachedIn catalog roots less type
  named : ∀ {name layout}, registry.get? name = some layout ↔
    ∃ compiled ∈ registry.records, compiled.type.fullName = name ∧ compiled.layout = layout
  layouts : ∀ compiled ∈ registry.records, ∃ fields, catalog.fields? compiled.type = some fields ∧
    compiled.layout.Describes compiled.type fields

/-- No record that was given its fields has a name twice: what a layout is refused for is a record that was never
defined. -/
theorem layout_of_made (made : catalog.Made) (r : RecordRef) :
    Layout.of catalog r =
      if catalog.isDefined r then .ok (layoutOf catalog r) else .error ⟨r.fullName, .neverDefined⟩ := by
  rw [Catalog.isDefined]
  cases defined : catalog.fields? r with
  | none => rw [Layout.of, defined]; rfl
  | some fields => rw [layoutOf_ok defined (made.distinct defined)]; rfl

theorem distinct_of_leads
    (distinct : ∀ {a b}, catalog.Leads roots a → catalog.Leads roots b → a.IsNamed → b.IsNamed →
      a.typeName = b.typeName → a = b) : Distinct catalog roots :=
  fun _ _ first second => distinct (Catalog.leads_of_reachable first) (Catalog.leads_of_reachable second) first.named
    second.named

/-- Compiling succeeds where no union stands right inside another one and all records are defined; the names of
their fields are distinct then. -/
theorem compile_ok_of_leads (made : catalog.Made) (distinct : Distinct catalog roots) :
    compile catalog roots = .ok registry ↔
      ((∀ {branches}, catalog.Leads roots (.union branches) → ∀ branch ∈ branches, branch.isUnion = false) ∧
        ∀ {r}, catalog.Leads roots (.record r) → ∃ fields, catalog.fields? r = some fields) ∧
      registry = ⟨((searched catalog roots).filterMap Schema.record?).map (compiledOf catalog),
        (searched catalog roots).filterMap Schema.enum?, (searched catalog roots).filterMap Schema.fixed?⟩ := by
  rw [compile_ok_iff distinct, Catalog.unnested_iff]
  refine and_congr_left fun _ => ?_
  constructor
  · rintro ⟨flat, records⟩
    refine ⟨⟨flat, fun {r fields} reachable defined => ?_⟩, fun {r} leads => ?_⟩
    · obtain ⟨fields', defined', _, flat'⟩ := records r reachable
      obtain rfl := Option.some.inj (defined.symm.trans defined')
      exact flat'
    · obtain ⟨fields, defined, _⟩ := records r (leads.reachable _ List.mem_cons_self)
      exact ⟨fields, defined⟩
  · rintro ⟨⟨flat, records⟩, defined⟩
    refine ⟨flat, fun r reachable => ?_⟩
    obtain ⟨fields, known⟩ := defined (Catalog.leads_of_reachable reachable)
    exact ⟨fields, known, made.distinct known, records reachable known⟩

/-- The types of a registry, in the order of the search. -/
theorem types_of_ok (distinct : Distinct catalog roots) (compiled : compile catalog roots = .ok registry) :
    registry.records.map CompiledRecord.type = (searched catalog roots).filterMap Schema.record? ∧
      registry.enums = (searched catalog roots).filterMap Schema.enum? ∧
      registry.fixed = (searched catalog roots).filterMap Schema.fixed? := by
  obtain ⟨_, rfl⟩ := (compile_ok_iff distinct).mp compiled
  refine ⟨?_, rfl, rfl⟩
  rw [List.map_map]
  exact List.map_id _

theorem exact_of_ok (distinct : Distinct catalog roots)
    (compiled : compile catalog roots = .ok registry) : Exact catalog roots registry := by
  have complete := complete_of_ok distinct compiled
  obtain ⟨records, enums, fixed⟩ := types_of_ok distinct compiled
  have leads {type : Schema} (named : type.IsNamed) : type ∈ searched catalog roots ↔ catalog.Leads roots type :=
    (mem_searched distinct).trans (Catalog.leads_iff named).symm
  constructor
  case records =>
    intro r
    rw [records, Schema.mem_parts Schema.record?_iff]
    exact leads trivial
  case enums =>
    intro e
    rw [enums, Schema.mem_parts Schema.enum?_iff]
    exact leads trivial
  case fixed =>
    intro f
    rw [fixed, Schema.mem_parts Schema.fixed?_iff]
    exact leads trivial
  case once =>
    have apart := searched_distinct catalog roots
    rw [records, enums, fixed]
    exact ⟨Schema.nodup_parts Schema.record?_iff apart, Schema.nodup_parts Schema.enum?_iff apart,
      Schema.nodup_parts Schema.fixed?_iff apart⟩
  case order =>
    exact ⟨searchBound catalog roots, searched catalog roots, levelAt_end catalog roots, before_eq catalog roots _,
      records, enums, fixed⟩
  case levels => exact mem_levelAt distinct
  case named => exact complete.get?_iff (compilable_of_ok distinct compiled)
  case layouts =>
    intro compiled member
    obtain ⟨_, layout⟩ := complete.compiled compiled member
    obtain ⟨fields, defined, apart, same⟩ := layout_of_ok.mp layout
    refine ⟨fields, defined, ?_⟩
    rw [same]
    exact Layout.describes apart

/-- Compiling fails exactly at a union right inside another one or at a record that was never defined, and
otherwise gives a registry of exactly the types that the roots lead to. -/
theorem compile_exact (made : catalog.Made)
    (distinct : ∀ {a b}, catalog.Leads roots a → catalog.Leads roots b → a.IsNamed → b.IsNamed →
      a.typeName = b.typeName → a = b) :
    ((∃ e, compile catalog roots = .error e) ↔
      (∃ branches, catalog.Leads roots (.union branches) ∧ ∃ branch ∈ branches, branch.isUnion = true) ∨
        ∃ r, catalog.Leads roots (.record r) ∧ catalog.fields? r = none) ∧
      ∀ registry, compile catalog roots = .ok registry → Exact catalog roots registry := by
  have apart := distinct_of_leads distinct
  refine ⟨?_, fun registry compiled => exact_of_ok apart compiled⟩
  constructor
  · rintro ⟨e, failed⟩
    by_contra neither
    obtain ⟨unnested, defined⟩ := not_or.mp neither
    have compiled := (compile_ok_of_leads made apart).mpr ⟨⟨?unnested, ?defined⟩, rfl⟩
    case unnested =>
      intro branches leads branch member
      exact Bool.eq_false_iff.mpr fun union => unnested ⟨branches, leads, branch, member, union⟩
    case defined =>
      intro r leads
      exact Option.ne_none_iff_exists'.mp fun absent => defined ⟨r, leads, absent⟩
    rw [failed] at compiled
    cases compiled
  · intro refused
    cases compiled : compile catalog roots with
    | error e => exact ⟨e, rfl⟩
    | ok registry =>
      obtain ⟨⟨unnested, defined⟩, _⟩ := (compile_ok_of_leads made apart).mp compiled
      rcases refused with ⟨branches, leads, branch, member, union⟩ | ⟨r, leads, absent⟩
      · rw [unnested leads branch member] at union
        cases union
      · obtain ⟨fields, known⟩ := defined leads
        rw [absent] at known
        cases known

/-- Lines lead to orders, which lead back to lines and to themselves. -/
theorem compile_exact_shop :
    Shop.vocabulary.catalog.Made ∧
      (∀ {a b}, Shop.vocabulary.catalog.Leads [.record Shop.line] a →
        Shop.vocabulary.catalog.Leads [.record Shop.line] b → a.IsNamed → b.IsNamed →
          a.typeName = b.typeName → a = b) ∧
      ∃ registry, compile Shop.vocabulary.catalog [.record Shop.line] = .ok registry ∧
        registry.records.map CompiledRecord.type = [Shop.line, Shop.order] ∧
        Exact Shop.vocabulary.catalog [.record Shop.line] registry := by
  have declared := (Catalog.Made.empty.declare "Order" none none).declare "Line" none none
  have order := @Catalog.Made.define _ _ Shop.order Shop.orderFields declared rfl
  have made := @Catalog.Made.define _ Shop.vocabulary.catalog Shop.line Shop.lineFields order rfl
  have compilable : Compilable Shop.vocabulary.catalog (Reachable Shop.vocabulary.catalog [.record Shop.line]) := by
    obtain ⟨parses, bound⟩ :=
      (Vocabulary.parseDocuments_ends Vocabulary.Parsed.new.settled.toConsistent).ok Shop.parse_documents
    refine (Vocabulary.Parsed.new.settled.parse parses).compilable made fun root member => bound root ?_
    exact List.mem_cons_of_mem _ member
  have distinct {a b : Schema} (first : Shop.vocabulary.catalog.Leads [.record Shop.line] a)
      (second : Shop.vocabulary.catalog.Leads [.record Shop.line] b) (namedA : a.IsNamed) (namedB : b.IsNamed) :
      a.typeName = b.typeName → a = b :=
    compilable.unique ((Catalog.leads_iff namedA).mp first) ((Catalog.leads_iff namedB).mp second)
  exact ⟨made, distinct, _, rfl, rfl, (compile_exact made distinct).2 _ rfl⟩

end Registry

end TrackedRecord
