import TrackedRecord.Proofs.Registry.Built

/-!
# Types that roots reach

The search finds the types that the roots reach, if no two of these have one name (`mem_searched`), each in the
level of its distance from the roots (`mem_levelAt`). So compiling succeeds exactly where each of them can be
compiled (`compile_ok_iff`), and the registry knows every record that the roots reach by its name, with the fields
of its definition.
-/

namespace TrackedRecord

namespace Registry

open Schema (mentioned)

/-- A type that the roots mention, or a field of a record that they reach. -/
inductive Reachable (catalog : Catalog) (roots : List Schema) : Schema → Prop where
  | root {root type : Schema} (member : root ∈ roots) (mentioned : type ∈ root.mentioned) :
    Reachable catalog roots type
  | field {r : RecordRef} {fields : List FieldType} {field : FieldType} {type : Schema}
    (reachable : Reachable catalog roots (.record r)) (defined : catalog.fields? r = some fields)
    (member : field ∈ fields) (mentioned : type ∈ field.schema.mentioned) : Reachable catalog roots type

/-- No two types that the roots reach have one name. -/
def Distinct (catalog : Catalog) (roots : List Schema) : Prop :=
  ∀ a b, Reachable catalog roots a → Reachable catalog roots b → a.typeName = b.typeName → a = b

/-- Types that can be compiled: each has a name of its own, and records are defined by fields with such types. -/
structure Compilable (catalog : Catalog) (known : Schema → Prop) : Prop where
  named : ∀ {type}, known type → type.IsNamed
  unique : ∀ {a b}, known a → known b → a.typeName = b.typeName → a = b
  defined : ∀ {r}, known (.record r) → ∃ fields, catalog.fields? r = some fields ∧
    (fields.map FieldType.name).Nodup ∧ (∀ field ∈ fields, field.schema.Flat) ∧
      ∀ type ∈ fieldTypes fields, known type

def Lists (registry : Registry) : Schema → Prop
  | .record r => ∃ compiled ∈ registry.records, compiled.type = r
  | .enum e => e ∈ registry.enums
  | .fixed f => f ∈ registry.fixed
  | _ => False

/-- A registry of all types that the roots reach and of no others, each record with the layout of its
definition. -/
structure Complete (catalog : Catalog) (roots : List Schema) (registry : Registry) : Prop where
  compiled : ∀ compiled ∈ registry.records, Reachable catalog roots (.record compiled.type) ∧
    Layout.of catalog compiled.type = .ok compiled.layout
  listed : ∀ {type}, Reachable catalog roots type → registry.Lists type

variable {catalog : Catalog} {roots : List Schema} {registry : Registry} {type : Schema}

theorem mem_fieldTypes {fields : List FieldType} :
    type ∈ fieldTypes fields ↔ ∃ field ∈ fields, type ∈ field.schema.mentioned :=
  List.mem_flatMap

theorem Reachable.named (reachable : Reachable catalog roots type) : type.IsNamed := by
  cases reachable with
  | root _ mentioned => exact Schema.named_of_mentioned mentioned
  | field _ _ _ mentioned => exact Schema.named_of_mentioned mentioned

theorem mem_children_field {r : RecordRef} {fields : List FieldType} {field : FieldType}
    (defined : catalog.fields? r = some fields) (member : field ∈ fields) (mentioned : type ∈ field.schema.mentioned) :
    type ∈ children catalog (.record r) :=
  mem_children.mpr ⟨r, fields, rfl, defined, mem_fieldTypes.mpr ⟨field, member, mentioned⟩⟩

/-! ### Distances -/

/-- A type that the roots reach by a number of steps from a record to what its fields mention. -/
inductive ReachedIn (catalog : Catalog) (roots : List Schema) : Nat → Schema → Prop where
  | root {root type : Schema} (member : root ∈ roots) (mentioned : type ∈ root.mentioned) :
    ReachedIn catalog roots 0 type
  | field {depth : Nat} {r : RecordRef} {fields : List FieldType} {field : FieldType} {type : Schema}
    (reached : ReachedIn catalog roots depth (.record r)) (defined : catalog.fields? r = some fields)
    (member : field ∈ fields) (mentioned : type ∈ field.schema.mentioned) : ReachedIn catalog roots (depth + 1) type

theorem ReachedIn.reachable {depth : Nat} (reached : ReachedIn catalog roots depth type) :
    Reachable catalog roots type := by
  induction reached with
  | root member mentioned => exact .root member mentioned
  | field _ defined member mentioned ih => exact .field ih defined member mentioned

theorem reachedIn_of_mem {depth : Nat} (member : type ∈ (levelAt catalog roots depth).types) :
    ReachedIn catalog roots depth type := by
  induction depth generalizing type with
  | zero =>
    obtain ⟨root, present, mentioned⟩ := List.mem_flatMap.mp (of_mem_newTypes member).1
    exact .root present mentioned
  | succ depth ih =>
    obtain ⟨owner, inLevel, child⟩ := List.mem_flatMap.mp (of_mem_newTypes member).1
    obtain ⟨r, fields, rfl, defined, inFields⟩ := mem_children.mp child
    obtain ⟨field, inside, mentioned⟩ := mem_fieldTypes.mp inFields
    exact .field (ih inLevel) defined inside mentioned

/-! ### What the search finds -/

/-- The types before a level are those of the earlier levels, one level after another. -/
theorem before_eq (catalog : Catalog) (roots : List Schema) (depth : Nat) :
    (levelAt catalog roots depth).before = (List.range depth).flatMap fun less => (levelAt catalog roots less).types := by
  induction depth with
  | zero => rfl
  | succ depth ih =>
    rw [List.range_succ, List.flatMap_append, ← ih, List.flatMap_singleton]
    rfl

theorem mem_before {depth : Nat} :
    type ∈ (levelAt catalog roots depth).before ↔ ∃ less < depth, type ∈ (levelAt catalog roots less).types := by
  simp only [before_eq, List.mem_flatMap, List.mem_range]

theorem before_subset {shallow deep : Nat} (le : shallow ≤ deep) :
    (levelAt catalog roots shallow).before ⊆ (levelAt catalog roots deep).before := by
  intro type member
  obtain ⟨depth, less, inLevel⟩ := mem_before.mp member
  exact mem_before.mpr ⟨depth, Nat.lt_of_lt_of_le less le, inLevel⟩

/-- Where a level is found, it stands before the next one. -/
theorem found_eq (catalog : Catalog) (roots : List Schema) (depth : Nat) :
    (levelAt catalog roots depth).found = (levelAt catalog roots (depth + 1)).before :=
  rfl

theorem reachable_of_mem_before {depth : Nat} (member : type ∈ (levelAt catalog roots depth).before) :
    Reachable catalog roots type := by
  obtain ⟨_, _, inLevel⟩ := mem_before.mp member
  exact (reachedIn_of_mem inLevel).reachable

/-- What the types before a level mention has been found. -/
theorem child_found {depth : Nat} {owner : Schema} (member : owner ∈ (levelAt catalog roots depth).before)
    (child : type ∈ children catalog owner) :
    type.typeName ∈ (levelAt catalog roots depth).found.map Schema.typeName := by
  induction depth with
  | zero => cases member
  | succ depth ih =>
    rw [Level.found, List.map_append]
    rcases List.mem_append.mp member with old | inLevel
    · exact List.mem_append_left _ (ih old)
    · exact mem_names_newTypes (List.mem_flatMap.mpr ⟨owner, inLevel, child⟩)

theorem root_found {root : Schema} (member : root ∈ roots) (mentioned : type ∈ root.mentioned) :
    type.typeName ∈ (levelAt catalog roots 0).found.map Schema.typeName := by
  have inRoots : type ∈ roots.flatMap Schema.mentioned := List.mem_flatMap.mpr ⟨root, member, mentioned⟩
  have found : type.typeName ∈ [] ++ (newTypes [] (roots.flatMap Schema.mentioned)).map Schema.typeName :=
    mem_names_newTypes inRoots
  exact found

theorem mem_of_name (distinct : Distinct catalog roots) {depth : Nat} (reachable : Reachable catalog roots type)
    (named : type.typeName ∈ (levelAt catalog roots depth).found.map Schema.typeName) :
    type ∈ (levelAt catalog roots depth).found := by
  rw [found_eq] at named ⊢
  obtain ⟨other, member, same⟩ := List.mem_map.mp named
  exact distinct _ _ (reachable_of_mem_before member) reachable same ▸ member

theorem ReachedIn.found (distinct : Distinct catalog roots) {depth : Nat}
    (reached : ReachedIn catalog roots depth type) : type ∈ (levelAt catalog roots depth).found := by
  induction reached with
  | root member mentioned => exact mem_of_name distinct (.root member mentioned) (root_found member mentioned)
  | field reached defined member mentioned ih =>
    have child := mem_children_field defined member mentioned
    exact mem_of_name distinct (.field reached.reachable defined member mentioned) (child_found ih child)

/-- A type stands in the level of the least number of steps that reach it. -/
theorem mem_levelAt (distinct : Distinct catalog roots) {depth : Nat} :
    type ∈ (levelAt catalog roots depth).types ↔
      ReachedIn catalog roots depth type ∧ ∀ less < depth, ¬ReachedIn catalog roots less type := by
  constructor
  · intro member
    refine ⟨reachedIn_of_mem member, fun less earlier reached => ?_⟩
    have before := before_subset (Nat.succ_le_of_lt earlier) (reached.found distinct)
    have names := levelAt_distinct catalog roots depth
    rw [Level.found, List.map_append, List.nodup_append] at names
    exact names.2.2 _ (List.mem_map_of_mem before) _ (List.mem_map_of_mem member) rfl
  · rintro ⟨reached, first⟩
    refine (List.mem_append.mp (reached.found distinct)).resolve_left fun before => ?_
    obtain ⟨less, earlier, member⟩ := mem_before.mp before
    exact first less earlier (reachedIn_of_mem member)

/-- All types that the search finds, in the order of the levels. -/
def searched (catalog : Catalog) (roots : List Schema) : List Schema :=
  (levelAt catalog roots (searchBound catalog roots)).before

theorem searched_eq (catalog : Catalog) (roots : List Schema) :
    searched catalog roots = (levelAt catalog roots (searchBound catalog roots)).found := by
  rw [searched, Level.found, levelAt_end, List.append_nil]

/-- The search finds exactly what the roots reach. -/
theorem mem_searched (distinct : Distinct catalog roots) :
    type ∈ searched catalog roots ↔ Reachable catalog roots type := by
  refine ⟨reachable_of_mem_before, fun reachable => ?_⟩
  induction reachable with
  | root member mentioned =>
    have found := mem_of_name distinct (.root member mentioned) (root_found member mentioned)
    rw [searched_eq, found_eq]
    exact before_subset (Nat.succ_le_succ (Nat.zero_le _)) found
  | field reachable defined member mentioned ih =>
    -- nothing is new below the last level, so what it mentions stands before it
    have child := mem_children_field defined member mentioned
    rw [searched_eq]
    exact mem_of_name distinct (.field reachable defined member mentioned) (child_found ih child)

theorem searched_distinct (catalog : Catalog) (roots : List Schema) : (searched catalog roots).Nodup := by
  rw [searched_eq]
  have names := List.pairwise_map.mp (levelAt_distinct catalog roots (searchBound catalog roots))
  exact names.imp fun differ same => differ (congrArg _ same)

/-! ### What is compiled -/

/-- Compiling succeeds if no root has a union right inside another and each record that is reached is defined
without one and by distinct names, and lists the types in the order of the search. -/
theorem compile_ok_iff (distinct : Distinct catalog roots) :
    compile catalog roots = .ok registry ↔
      ((∀ root ∈ roots, root.Flat) ∧ ∀ r, Reachable catalog roots (.record r) →
        ∃ fields, catalog.fields? r = some fields ∧ (fields.map FieldType.name).Nodup ∧
          ∀ field ∈ fields, field.schema.Flat) ∧
      registry = ⟨((searched catalog roots).filterMap Schema.record?).map (compiledOf catalog),
        (searched catalog roots).filterMap Schema.enum?, (searched catalog roots).filterMap Schema.fixed?⟩ := by
  have checks : (∀ type ∈ searched catalog roots, check catalog type = .ok ()) ↔
      ∀ r, Reachable catalog roots (.record r) →
        ∃ fields, catalog.fields? r = some fields ∧ (fields.map FieldType.name).Nodup ∧
          ∀ field ∈ fields, field.schema.Flat := by
    simp only [check_ok, mem_searched distinct]
    exact ⟨fun each r reachable => each _ reachable r rfl, fun each _ reachable r same => each r (same ▸ reachable)⟩
  rw [compile_eq, ← searched, foldl_put]
  simp only [Result.bind_ok_iff, rootMentions_ok, List.nil_append]
  constructor
  · rintro ⟨_, ⟨flat, -⟩, _, each, made⟩
    exact ⟨⟨flat, checks.mp (forM_ok.mp each)⟩, Result.pure_ok made⟩
  · rintro ⟨⟨flat, each⟩, rfl⟩
    exact ⟨_, ⟨flat, rfl⟩, (), forM_ok.mpr (checks.mpr each), rfl⟩

theorem compilable_of_ok (distinct : Distinct catalog roots) (compiled : compile catalog roots = .ok registry) :
    Compilable catalog (Reachable catalog roots) where
  named := Reachable.named
  unique first second := distinct _ _ first second
  defined {r} reachable := by
    obtain ⟨⟨_, records⟩, _⟩ := (compile_ok_iff distinct).mp compiled
    obtain ⟨fields, defined, apart, flat⟩ := records r reachable
    refine ⟨fields, defined, apart, flat, fun type inside => ?_⟩
    obtain ⟨field, member, mentioned⟩ := mem_fieldTypes.mp inside
    exact .field reachable defined member mentioned

theorem complete_of_ok (distinct : Distinct catalog roots) (compiled : compile catalog roots = .ok registry) :
    Complete catalog roots registry := by
  obtain ⟨⟨_, records⟩, rfl⟩ := (compile_ok_iff distinct).mp compiled
  constructor
  case compiled =>
    intro record member
    obtain ⟨r, inOrder, rfl⟩ := List.mem_map.mp member
    have reachable := (mem_searched distinct).mp ((Schema.mem_parts Schema.record?_iff).mp inOrder)
    obtain ⟨fields, defined, apart, _⟩ := records r reachable
    exact ⟨reachable, layoutOf_ok defined apart⟩
  case listed =>
    intro type reachable
    have member := (mem_searched distinct).mpr reachable
    cases type with
    | record r => exact ⟨_, List.mem_map_of_mem ((Schema.mem_parts Schema.record?_iff).mpr member), rfl⟩
    | enum e => exact (Schema.mem_parts Schema.enum?_iff).mpr member
    | fixed f => exact (Schema.mem_parts Schema.fixed?_iff).mpr member
    | _ => exact reachable.named.elim

/-- Roots that reach only types that can be compiled are compiled completely. -/
theorem compile_ok (compilable : Compilable catalog (Reachable catalog roots))
    (flat : ∀ root ∈ roots, root.Flat) :
    ∃ registry, compile catalog roots = .ok registry ∧ Complete catalog roots registry := by
  have distinct : Distinct catalog roots := fun _ _ => compilable.unique
  have compiled := (compile_ok_iff distinct).mpr ⟨⟨flat, fun r reachable => ?defined⟩, rfl⟩
  case defined =>
    obtain ⟨fields, defined, apart, flat, _⟩ := compilable.defined reachable
    exact ⟨fields, defined, apart, flat⟩
  exact ⟨_, compiled, complete_of_ok distinct compiled⟩

/-! ### Look-ups -/

theorem Complete.fullName (complete : Complete catalog roots registry) {compiled : CompiledRecord}
    (member : compiled ∈ registry.records) : compiled.layout.fullName = compiled.type.fullName := by
  obtain ⟨fields, _, _, same⟩ := layout_of_ok.mp (complete.compiled compiled member).2
  rw [same]

/-- A record that is reached is found by its name, with the layout of its definition. -/
theorem Complete.get? {registry : Registry} (complete : Complete catalog roots registry)
    (compilable : Compilable catalog (Reachable catalog roots)) {r : RecordRef}
    (reachable : Reachable catalog roots (.record r)) :
    ∃ layout, registry.get? r.fullName = some layout ∧ Layout.of catalog r = .ok layout := by
  obtain ⟨compiled, member, rfl⟩ := complete.listed reachable
  cases found : registry.record? compiled.type.fullName with
  | none =>
    have absent := List.find?_eq_none.mp found compiled member
    exact absurd (beq_iff_eq.mpr (complete.fullName member)) absent
  | some other =>
    -- the first record of the name is the only one
    have present := List.mem_of_find?_eq_some found
    have sameName : other.type.fullName = compiled.type.fullName :=
      (complete.fullName present).symm.trans (fullName_of_record? found)
    obtain ⟨reachableOther, layout⟩ := complete.compiled other present
    have same := Schema.record.inj (compilable.unique reachableOther reachable sameName)
    exact ⟨other.layout, get?_of_record? found, same ▸ layout⟩

/-- A layout that is found by name is that of a record that the roots reach. -/
theorem Complete.of_get? {registry : Registry} (complete : Complete catalog roots registry) {name : String}
    {layout : Layout} (found : registry.get? name = some layout) :
    ∃ r, Reachable catalog roots (.record r) ∧ Layout.of catalog r = .ok layout := by
  obtain ⟨compiled, present, rfl⟩ := record?_of_get? found
  exact ⟨compiled.type, complete.compiled compiled (List.mem_of_find?_eq_some present)⟩

/-- Names stand for the layouts of their records and for nothing else. -/
theorem Complete.get?_iff {registry : Registry} (complete : Complete catalog roots registry)
    (compilable : Compilable catalog (Reachable catalog roots)) {name : String} {layout : Layout} :
    registry.get? name = some layout ↔
      ∃ compiled ∈ registry.records, compiled.type.fullName = name ∧ compiled.layout = layout := by
  constructor
  · intro found
    obtain ⟨compiled, present, rfl⟩ := record?_of_get? found
    have member := List.mem_of_find?_eq_some present
    exact ⟨compiled, member, (complete.fullName member).symm.trans (fullName_of_record? present), rfl⟩
  · rintro ⟨compiled, member, rfl, rfl⟩
    obtain ⟨reachable, layout⟩ := complete.compiled compiled member
    obtain ⟨layout', found, same⟩ := complete.get? compilable reachable
    rw [found, Except.ok.inj (same.symm.trans layout)]

end Registry

end TrackedRecord
