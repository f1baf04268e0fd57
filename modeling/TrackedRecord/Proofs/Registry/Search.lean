import TrackedRecord.Proofs.Schema.Catalog
import TrackedRecord.Proofs.Schema.Mentions

/-!
# The search for types

Compiling is a search through the types that the roots and the fields of records mention. The search works off
its queue level by level (`compileQueue_level`): each level holds the new types that those of the level before
mention, in their order. It ends with an empty level before its fuel does, so a registry is compiled of
all levels together (`compile_eq`).
-/

namespace TrackedRecord.Registry

open Schema (mentioned)

/-- The types that the fields of a record mention. -/
def fieldTypes (fields : List FieldType) : List Schema := fields.flatMap fun field => field.schema.mentioned

/-- The names of the types that stand in some roots and in the fields of a catalog. -/
def namesIn (catalog : Catalog) (roots : List Schema) : List String :=
  (roots.flatMap mentioned ++ catalog.records.flatMap fun record => fieldTypes (record.types?.getD [])).map
    Schema.typeName

variable {catalog : Catalog} {roots types : List Schema} {type : Schema} {known : List String}

/-! ### New types -/

/-- The types whose names are not known yet, each where it stands first. -/
def newTypes (known : List String) : List Schema → List Schema
  | [] => []
  | type :: rest =>
    if known.contains type.typeName then newTypes known rest
    else type :: newTypes (type.typeName :: known) rest

theorem newTypes_congr {other : List String} (same : ∀ name, name ∈ known ↔ name ∈ other) :
    newTypes known types = newTypes other types := by
  induction types generalizing known other with
  | nil => rfl
  | cons type rest ih =>
    have contained : known.contains type.typeName = other.contains type.typeName := by
      rw [Bool.eq_iff_iff, List.contains_iff_mem, List.contains_iff_mem, same]
    have more (name : String) : name ∈ type.typeName :: known ↔ name ∈ type.typeName :: other := by
      rw [List.mem_cons, List.mem_cons, same]
    rw [newTypes, newTypes, contained, ih same, ih more]

theorem of_mem_newTypes (member : type ∈ newTypes known types) : type ∈ types ∧ type.typeName ∉ known := by
  induction types generalizing known with
  | nil => cases member
  | cons first rest ih =>
    rw [newTypes] at member
    split at member
    · exact (ih member).imp_left (List.mem_cons_of_mem _)
    · rename_i fresh
      rcases List.mem_cons.mp member with rfl | later
      · exact ⟨List.mem_cons_self, fun old => fresh (List.contains_iff_mem.mpr old)⟩
      · obtain ⟨inRest, absent⟩ := ih later
        exact ⟨List.mem_cons_of_mem _ inRest, fun old => absent (List.mem_cons_of_mem _ old)⟩

/-- No name of a list is left out. -/
theorem mem_names_newTypes (member : type ∈ types) :
    type.typeName ∈ known ++ (newTypes known types).map Schema.typeName := by
  induction types generalizing known with
  | nil => cases member
  | cons first rest ih =>
    rw [newTypes]
    split
    · rename_i old
      rcases List.mem_cons.mp member with rfl | later
      · exact List.mem_append_left _ (List.contains_iff_mem.mp old)
      · exact ih later
    · rcases List.mem_cons.mp member with rfl | later
      · exact List.mem_append_right _ List.mem_cons_self
      · have inRest : type.typeName ∈
            first.typeName :: known ++ (newTypes (first.typeName :: known) rest).map Schema.typeName := ih later
        simp only [List.mem_append, List.mem_cons, List.map_cons] at inRest ⊢
        rcases inRest with (here | old) | new
        · exact Or.inr (Or.inl here)
        · exact Or.inl old
        · exact Or.inr (Or.inr new)

theorem nodup_newTypes (known : List String) (types : List Schema) :
    ((newTypes known types).map Schema.typeName).Nodup := by
  induction types generalizing known with
  | nil => exact List.nodup_nil
  | cons type rest ih =>
    rw [newTypes]
    split
    · exact ih known
    · refine List.nodup_cons.mpr ⟨fun again => ?_, ih _⟩
      obtain ⟨other, member, same⟩ := List.mem_map.mp again
      exact (of_mem_newTypes member).2 (same ▸ List.mem_cons_self)

/-- The new types are put into the queue in their order. -/
theorem foldl_add (types : List Schema) (found : List String) (queue : List Schema) :
    types.foldl Search.add ⟨found, queue⟩ =
      ⟨((newTypes found types).map Schema.typeName).reverse ++ found, queue ++ newTypes found types⟩ := by
  induction types generalizing found queue with
  | nil => simp [newTypes]
  | cons type rest ih =>
    rw [List.foldl_cons, Search.add, newTypes]
    dsimp only
    split
    · exact ih found queue
    · rw [ih]
      simp

/-! ### Single types -/

/-- The types that a type mentions in its fields, which only a record has. -/
def children (catalog : Catalog) : Schema → List Schema
  | .record r => fieldTypes (catalog.fields r)
  | _ => []

/-- Refuses a record that has no fields or a union right inside another one in a field. -/
def check (catalog : Catalog) : Schema → Except SchemaError Unit
  | .record r => do
    let _ ← fieldMentions r.fullName (catalog.fields r)
    let _ ← Layout.of catalog r
    return ()
  | _ => .ok ()

def layoutOf (catalog : Catalog) (r : RecordRef) : Layout :=
  ⟨r.fullName, r.name, catalog.doc? r, Layout.fieldsOf (catalog.fields r)⟩

/-- A record as it is compiled. -/
def compiledOf (catalog : Catalog) (r : RecordRef) : CompiledRecord := ⟨r, layoutOf catalog r, Record.empty⟩

/-- Lists one more type. -/
def put (catalog : Catalog) (registry : Registry) : Schema → Registry
  | .record r => { registry with records := registry.records ++ [compiledOf catalog r] }
  | .enum e => { registry with enums := registry.enums ++ [e] }
  | .fixed f => { registry with fixed := registry.fixed ++ [f] }
  | _ => registry

theorem layout_of_ok {r : RecordRef} {layout : Layout} :
    Layout.of catalog r = .ok layout ↔ ∃ fields, catalog.fields? r = some fields ∧
      (fields.map FieldType.name).Nodup ∧
      layout = ⟨r.fullName, r.name, catalog.doc? r, Layout.fieldsOf fields⟩ := by
  unfold Layout.of
  cases catalog.fields? r with
  | none => simp
  | some fields =>
    simp only [Option.some.injEq, exists_eq_left', ← FieldType.firstRepeated_nil]
    cases FieldType.firstRepeated [] fields <;> simp [eq_comm]

theorem layoutOf_ok {r : RecordRef} {fields : List FieldType} (defined : catalog.fields? r = some fields)
    (distinct : (fields.map FieldType.name).Nodup) : Layout.of catalog r = .ok (layoutOf catalog r) := by
  refine layout_of_ok.mpr ⟨fields, defined, distinct, ?_⟩
  rw [layoutOf, Catalog.fields, defined]
  rfl

theorem compileQueue_cons (catalog : Catalog) (fuel : Nat) (found : List String) (type : Schema)
    (queue : List Schema) (registry : Registry) :
    compileQueue catalog (fuel + 1) ⟨found, type :: queue⟩ registry = (do
      check catalog type
      compileQueue catalog fuel ((children catalog type).foldl Search.add ⟨found, queue⟩)
        (put catalog registry type)) := by
  cases type with
  | record r =>
    rw [compileQueue, check]
    cases types : fieldMentions r.fullName (catalog.fields r) with
    | error e => rfl
    | ok types' =>
      cases made : Layout.of catalog r with
      | error e => rfl
      | ok layout =>
        obtain ⟨fields, defined, _, rfl⟩ := layout_of_ok.mp made
        obtain ⟨-, rfl⟩ := fieldMentions_ok.mp types
        have same : catalog.fields r = fields := by rw [Catalog.fields, defined]; rfl
        rw [put, compiledOf, layoutOf, children, same]
        rfl
  | _ => rfl

/-- The types at the front of the queue are compiled one after another, and what they mention is put behind the
rest of the queue. -/
theorem compileQueue_level (catalog : Catalog) (fuel : Nat) (found : List String) (level queue : List Schema)
    (registry : Registry) :
    compileQueue catalog (level.length + fuel) ⟨found, level ++ queue⟩ registry = (do
      forM level (check catalog)
      compileQueue catalog fuel ((level.flatMap (children catalog)).foldl Search.add ⟨found, queue⟩)
        (level.foldl (put catalog) registry)) := by
  induction level generalizing found queue registry with
  | nil => simp
  | cons type rest ih =>
    have step := compileQueue_cons catalog (rest.length + fuel) found type (rest ++ queue) registry
    rw [foldl_add, List.append_assoc, ih] at step
    rw [List.length_cons, Nat.add_right_comm, List.cons_append, step, List.flatMap_cons, List.foldl_append,
      foldl_add (children catalog type), List.forM_cons, bind_assoc, List.foldl_cons]

theorem forM_ok {ε α : Type} {f : α → Except ε Unit} {all : List α} :
    forM all f = .ok () ↔ ∀ a ∈ all, f a = .ok () := by
  induction all with
  | nil => simp [pure, Except.pure]
  | cons a rest ih =>
    rw [List.forM_cons, Result.bind_ok_iff, List.forall_mem_cons, ih]
    exact ⟨fun ⟨_, first, others⟩ => ⟨first, others⟩, fun ⟨first, others⟩ => ⟨(), first, others⟩⟩

theorem check_ok : check catalog type = .ok () ↔
    ∀ r, type = .record r → ∃ fields, catalog.fields? r = some fields ∧ (fields.map FieldType.name).Nodup ∧
      ∀ field ∈ fields, field.schema.Flat := by
  cases type with
  | record r =>
    simp only [check, Result.bind_ok_iff, fieldMentions_ok, layout_of_ok]
    constructor
    · rintro ⟨_, ⟨flat, -⟩, _, ⟨fields, defined, distinct, -⟩, -⟩ _ ⟨⟩
      rw [Catalog.fields, defined] at flat
      exact ⟨fields, defined, distinct, flat⟩
    · intro holds
      obtain ⟨fields, defined, distinct, flat⟩ := holds r rfl
      refine ⟨_, ⟨?_, rfl⟩, _, ⟨fields, defined, distinct, rfl⟩, rfl⟩
      rw [Catalog.fields, defined]
      exact flat
  | _ => exact ⟨fun _ => nofun, fun _ => rfl⟩

theorem foldl_put (types : List Schema) (registry : Registry) :
    types.foldl (put catalog) registry =
      ⟨registry.records ++ (types.filterMap Schema.record?).map (compiledOf catalog),
        registry.enums ++ types.filterMap Schema.enum?, registry.fixed ++ types.filterMap Schema.fixed?⟩ := by
  induction types generalizing registry with
  | nil => simp
  | cons type rest ih =>
    rw [List.foldl_cons, ih]
    cases type <;> simp [put, Schema.record?, Schema.enum?, Schema.fixed?, List.filterMap_cons]

/-! ### Levels -/

/-- The types of one level of the search, and those of the levels before it. -/
structure Level where
  before : List Schema
  types : List Schema

def Level.found (level : Level) : List Schema := level.before ++ level.types

/-- The level of the types that those of a level mention first, in the order of records and fields. -/
def Level.next (catalog : Catalog) (level : Level) : Level :=
  ⟨level.found, newTypes (level.found.map Schema.typeName) (level.types.flatMap (children catalog))⟩

/-- The level at some depth below the types that the roots mention. -/
def levelAt (catalog : Catalog) (roots : List Schema) : Nat → Level
  | 0 => ⟨[], newTypes [] (roots.flatMap mentioned)⟩
  | depth + 1 => (levelAt catalog roots depth).next catalog

theorem levelAt_distinct (catalog : Catalog) (roots : List Schema) (depth : Nat) :
    ((levelAt catalog roots depth).found.map Schema.typeName).Nodup := by
  induction depth with
  | zero => exact nodup_newTypes _ _
  | succ depth ih =>
    rw [levelAt, Level.next, Level.found, List.map_append, List.nodup_append]
    refine ⟨ih, nodup_newTypes _ _, ?_⟩
    rintro name old _ new rfl
    obtain ⟨type, member, rfl⟩ := List.mem_map.mp new
    exact (of_mem_newTypes member).2 old

theorem field_mem_namesIn {r : RecordRef} {fields : List FieldType} (defined : catalog.fields? r = some fields)
    (member : type ∈ fieldTypes fields) : type.typeName ∈ namesIn catalog roots := by
  obtain ⟨record, found, same⟩ := Option.bind_eq_some_iff.mp defined
  refine List.mem_map_of_mem (List.mem_append_right _ (List.mem_flatMap.mpr ⟨record, ?_, ?_⟩))
  · exact List.mem_of_getElem? found
  · rw [same]
    exact member

theorem mem_children {owner : Schema} : type ∈ children catalog owner ↔
    ∃ r fields, owner = .record r ∧ catalog.fields? r = some fields ∧ type ∈ fieldTypes fields := by
  cases owner with
  | record r =>
    cases defined : catalog.fields? r <;> simp [children, Catalog.fields, defined, fieldTypes]
  | _ => simp [children]

theorem levelAt_names (depth : Nat) (member : type ∈ (levelAt catalog roots depth).found) :
    type.typeName ∈ namesIn catalog roots := by
  induction depth with
  | zero =>
    have mentioned := (of_mem_newTypes member).1
    exact List.mem_map_of_mem (List.mem_append_left _ mentioned)
  | succ depth ih =>
    rcases List.mem_append.mp member with old | new
    · exact ih old
    · obtain ⟨owner, _, child⟩ := List.mem_flatMap.mp (of_mem_newTypes new).1
      obtain ⟨r, fields, _, defined, inFields⟩ := mem_children.mp child
      exact field_mem_namesIn defined inFields

theorem length_foldl (records : List RecordType) (count : Nat) :
    records.foldl (fun n record => n + mentionCountAll ((record.types?.getD []).map FieldType.schema)) count =
      count + (records.flatMap fun record => fieldTypes (record.types?.getD [])).length := by
  induction records generalizing count with
  | nil => rfl
  | cons record rest ih =>
    rw [List.foldl_cons, ih, mentionCountAll_eq fun schema _ => mentionCount_eq schema, List.flatMap_cons,
      List.length_append, List.flatMap_map, fieldTypes, Nat.add_assoc]

theorem searchBound_eq (catalog : Catalog) (roots : List Schema) :
    searchBound catalog roots = (namesIn catalog roots).length := by
  rw [searchBound, length_foldl, mentionCountAll_eq fun schema _ => mentionCount_eq schema, namesIn,
    List.length_map, List.length_append]

theorem levelAt_length (catalog : Catalog) (roots : List Schema) (depth : Nat) :
    (levelAt catalog roots depth).found.length ≤ searchBound catalog roots := by
  rw [searchBound_eq, ← List.length_map (f := Schema.typeName)]
  refine (levelAt_distinct catalog roots depth).length_le_of_subset fun name member => ?_
  obtain ⟨type, found, rfl⟩ := List.mem_map.mp member
  exact levelAt_names depth found

/-- Each level that is not empty has a new name, so some level is empty before all names are used up. -/
theorem levelAt_end (catalog : Catalog) (roots : List Schema) :
    (levelAt catalog roots (searchBound catalog roots)).types = [] := by
  have grows (depth : Nat) : (levelAt catalog roots depth).types = [] ∨
      depth < (levelAt catalog roots depth).found.length := by
    induction depth with
    | zero =>
      cases types : (levelAt catalog roots 0).types with
      | nil => exact Or.inl rfl
      | cons type rest =>
        right
        rw [Level.found, types, List.length_append, List.length_cons]
        omega
    | succ depth ih =>
      cases types : (levelAt catalog roots (depth + 1)).types with
      | nil => exact Or.inl rfl
      | cons type rest =>
        right
        rcases ih with empty | longer
        · rw [levelAt, Level.next, empty] at types
          cases types
        · rw [Level.found, types, List.length_append, List.length_cons, levelAt, Level.next]
          dsimp only
          omega
  exact (grows _).resolve_right (Nat.not_lt.mpr (levelAt_length catalog roots _))

/-- The search as far as a level: all levels before it are compiled, and it is the queue. -/
theorem compile_levelAt (catalog : Catalog) (roots : List Schema) (depth : Nat) :
    compile catalog roots = (do
      let _ ← rootMentions roots
      forM (levelAt catalog roots depth).before (check catalog)
      compileQueue catalog (searchBound catalog roots - (levelAt catalog roots depth).before.length)
        ⟨((levelAt catalog roots depth).found.map Schema.typeName).reverse, (levelAt catalog roots depth).types⟩
        ((levelAt catalog roots depth).before.foldl (put catalog) {})) := by
  induction depth with
  | zero =>
    rw [compile]
    cases mentions : rootMentions roots with
    | error e => rfl
    | ok types =>
      obtain ⟨-, rfl⟩ := rootMentions_ok.mp mentions
      have start := foldl_add (roots.flatMap mentioned) [] []
      rw [List.append_nil, List.nil_append] at start
      rw [levelAt, Result.bind_of_ok rfl, Result.bind_of_ok rfl, start]
      rfl
  | succ depth ih =>
    have long := levelAt_length catalog roots depth
    rw [ih, levelAt]
    generalize levelAt catalog roots depth = level at long ⊢
    rw [Level.found, List.length_append] at long
    have fuel : searchBound catalog roots - level.before.length =
        level.types.length + (searchBound catalog roots - level.found.length) := by
      rw [Level.found, List.length_append]
      omega
    have known : newTypes (level.found.map Schema.typeName).reverse = newTypes (level.found.map Schema.typeName) :=
      funext fun _ => newTypes_congr fun _ => List.mem_reverse
    have run := compileQueue_level catalog (searchBound catalog roots - level.found.length)
      (level.found.map Schema.typeName).reverse level.types []
    rw [List.append_nil] at run
    simp only [fuel, run, foldl_add, known, Level.next]
    simp only [Level.found, List.forM_append, bind_assoc, List.foldl_append, List.map_append, List.reverse_append,
      List.nil_append, List.append_assoc]

/-- All types that are found are compiled, level by level. -/
theorem compile_eq (catalog : Catalog) (roots : List Schema) :
    compile catalog roots = (do
      let _ ← rootMentions roots
      forM (levelAt catalog roots (searchBound catalog roots)).before (check catalog)
      return (levelAt catalog roots (searchBound catalog roots)).before.foldl (put catalog) {}) := by
  have empty (fuel : Nat) (found : List String) (registry : Registry) :
      compileQueue catalog fuel ⟨found, []⟩ registry = .ok registry := by
    cases fuel <;> rfl
  rw [compile_levelAt catalog roots (searchBound catalog roots), levelAt_end]
  simp only [empty]
  rfl

end TrackedRecord.Registry
