import TrackedRecord.Proofs.Registry.Search
import TrackedRecord.Proofs.Result
import TrackedRecord.Proofs.Value.WellFormed

/-!
# Registries that programs hold

A registry is compiled from some roots, and then makers of instances may be put into it. A maker gives
instances of the layout it is handed; what it writes into them is its own choice.
-/

namespace TrackedRecord.Registry

theorem fullName_of_record? {registry : Registry} {name : String} {compiled : CompiledRecord}
    (found : registry.record? name = some compiled) : compiled.layout.fullName = name := by
  simpa using List.find?_some found

theorem get?_of_record? {registry : Registry} {name : String} {compiled : CompiledRecord}
    (found : registry.record? name = some compiled) : registry.get? name = some compiled.layout := by
  rw [get?, found]
  rfl

theorem record?_of_get? {registry : Registry} {name : String} {layout : Layout}
    (found : registry.get? name = some layout) :
    ∃ compiled, registry.record? name = some compiled ∧ compiled.layout = layout := by
  simpa [get?, Option.map_eq_some_iff] using found

/-- The maker of a type gives well-formed instances of the layout that it is handed. -/
def Makes (registry : Registry) (fresh : Layout → Record Value) (layout : Layout) : Prop :=
  (fresh layout).layout = layout ∧ (fresh layout).WellFormed registry

inductive Built : Registry → Prop where
  | compile {catalog : Catalog} {roots : List Schema} {registry : Registry}
      (compiled : compile catalog roots = .ok registry)
      (sized : ∀ record ∈ registry.records, record.layout.fieldCount < Wire.wordBound) : Built registry
  | setFactory {registry : Registry} {fullName : String} {fresh : Layout → Record Value}
      (built : Built registry)
      (makes : ∀ layout, registry.get? fullName = some layout → registry.Makes fresh layout) :
      Built (registry.setFactory fullName fresh).2

/-! ### Compiled registries -/

/-- A record as it is compiled: the layout of its definition, and the empty record as its maker. -/
def AsCompiled (catalog : Catalog) (record : CompiledRecord) : Prop :=
  Layout.of catalog record.type = .ok record.layout ∧ record.fresh = Record.empty

theorem compile_made {catalog : Catalog} {roots : List Schema} {registry : Registry}
    (compiled : compile catalog roots = .ok registry) : ∀ record ∈ registry.records, AsCompiled catalog record := by
  rw [compile_eq, foldl_put] at compiled
  obtain ⟨_, _, compiled⟩ := Result.bind_ok compiled
  obtain ⟨_, checked, compiled⟩ := Result.bind_ok compiled
  obtain rfl := Result.pure_ok compiled
  intro record member
  obtain ⟨r, inOrder, rfl⟩ := List.mem_map.mp member
  have type := (Schema.mem_parts Schema.record?_iff).mp inOrder
  obtain ⟨fields, defined, distinct, _⟩ := check_ok.mp (forM_ok.mp checked _ type) r rfl
  exact ⟨layoutOf_ok defined distinct, rfl⟩

theorem compile_fresh {catalog : Catalog} {roots : List Schema} {registry : Registry}
    (compiled : compile catalog roots = .ok registry) :
    ∀ record ∈ registry.records, record.fresh = Record.empty :=
  fun record member => (compile_made compiled record member).2

/-! ### Replaced makers -/

theorem setFactory_record? (registry : Registry) (fullName name : String) (fresh : Layout → Record Value) :
    (registry.setFactory fullName fresh).2.record? name = (registry.record? name).map fun record =>
      if record.layout.fullName == fullName then { record with fresh } else record := by
  unfold setFactory record?
  dsimp only
  rw [List.find?_map]
  congr 2
  funext record
  dsimp only [Function.comp]
  split <;> rfl

@[simp] theorem setFactory_get? (registry : Registry) (fullName name : String)
    (fresh : Layout → Record Value) :
    (registry.setFactory fullName fresh).2.get? name = registry.get? name := by
  unfold get?
  rw [setFactory_record?, Option.map_map]
  congr 1
  funext record
  dsimp only [Function.comp]
  split <;> rfl

end TrackedRecord.Registry

namespace TrackedRecord

/-- Only the layouts of a registry count. -/
theorem Value.WellFormed.congr {registry other : Registry}
    (same : ∀ name, other.get? name = registry.get? name)
    {value : Value} (formed : value.WellFormed registry) : value.WellFormed other := by
  induction value using Value.induction with
  | record layout slots dirty readable ih =>
    obtain ⟨shaped, each⟩ := wellFormed_record.mp formed
    refine wellFormed_record.mpr ⟨⟨?_, shaped.2, shaped.3, shaped.4, shaped.5, shaped.6⟩, ?_⟩
    · rw [same, shaped.layout]
    · exact fun slot member => ih slot member (each slot member)
  | array items ih =>
    obtain ⟨size, each⟩ := wellFormed_array.mp formed
    exact wellFormed_array.mpr ⟨size, fun item member => ih item member (each item member)⟩
  | map entries states ih =>
    obtain ⟨shaped, each⟩ := wellFormed_map.mp formed
    exact wellFormed_map.mpr ⟨shaped, fun entry member => ih entry member (each entry member)⟩
  | union branch value ih =>
    obtain ⟨small, inner⟩ := wellFormed_union.mp formed
    exact wellFormed_union.mpr ⟨small, ih inner⟩
  | enum ordinal => exact formed
  | _ => trivial

theorem Record.WellFormed.congr {registry other : Registry}
    (same : ∀ name, other.get? name = registry.get? name)
    {r : Record Value} (formed : r.WellFormed registry) : r.WellFormed other :=
  Value.wellFormed_record.mp ((Value.wellFormed_record.mpr formed).congr same)

namespace Registry

/-! ### What holds of every registry -/

/-- New instances are well-formed instances of their layouts, and fields can be counted in a word. -/
structure Sound (registry : Registry) : Prop where
  makes : ∀ {name compiled}, registry.record? name = some compiled →
    registry.Makes compiled.fresh compiled.layout
  sized : ∀ {name compiled}, registry.record? name = some compiled →
    compiled.layout.fieldCount < Wire.wordBound

theorem Built.sound {registry : Registry} (built : Built registry) : registry.Sound := by
  induction built with
  | compile compiled sized =>
    constructor
    · intro name found known
      refine ⟨?_, ?_⟩
      all_goals rw [compile_fresh compiled found (List.mem_of_find?_eq_some known)]
      · rfl
      · apply Record.empty_wellFormed
        rw [fullName_of_record? known]
        exact get?_of_record? known
    · exact fun known => sized _ (List.mem_of_find?_eq_some known)
  | @setFactory registry fullName fresh _ makes ih =>
    constructor
    · intro name found known
      rw [setFactory_record?] at known
      obtain ⟨old, before, rfl⟩ := Option.map_eq_some_iff.mp known
      have replaced : registry.Makes
          (if old.layout.fullName == fullName then { old with fresh } else old).fresh old.layout := by
        split
        · rename_i named
          apply makes
          rw [← eq_of_beq named, fullName_of_record? before]
          exact get?_of_record? before
        · exact ih.makes before
      have layout :
          (if old.layout.fullName == fullName then { old with fresh } else old).layout = old.layout := by
        split <;> rfl
      rw [layout]
      exact ⟨replaced.1, replaced.2.congr (setFactory_get? registry fullName · fresh)⟩
    · intro name found known
      rw [setFactory_record?] at known
      obtain ⟨old, before, rfl⟩ := Option.map_eq_some_iff.mp known
      have sized := ih.sized before
      split <;> exact sized

end TrackedRecord.Registry

/-! ### A list as a record type -/

namespace TrackedRecord.Node

def type : RecordRef := ⟨"Node", none, 0⟩

/-- A number, perhaps another node, and numbers by name. -/
def fields : List FieldType :=
  [⟨"number", .primitive .int⟩, ⟨"next", Schema.nullable (.record type)⟩, ⟨"named", .map (.primitive .int)⟩]

def layout : Layout := ⟨"Node", "Node", none, Layout.fieldsOf fields⟩

def registry : Registry := { records := [{ type, layout }] }

theorem compiled :
    Registry.compile ⟨[⟨"Node", none, none, some (FieldSchema.numbered fields)⟩]⟩ [.record type] = .ok registry :=
  rfl

theorem registry_built : registry.Built := .compile compiled (by decide)

end TrackedRecord.Node
