import Std.Data.String.ToNat
import TrackedRecord.Proofs.Registry.Layouts
import TrackedRecord.Source.Module

/-!
# Names in generated source are told apart

A name that is taken gets the least number that makes it free, and a free number is among those tried.
So names that are made one after the other differ, from each other and from the reserved ones. In source
that is generated for compiled types, each type has an identifier of its own, each field a constant of its
own with the number of the field, and the methods for a field refer to its constant alone.
-/

namespace TrackedRecord.Source

/-! ### Free names -/

theorem numbered_injective {base : String} {m n : Nat} (same : s!"{base}{m}" = s!"{base}{n}") : m = n :=
  Nat.repr_injective ((String.append_right_inj base).mp same)

theorem numbered_ne (base : String) (n : Nat) : s!"{base}{n}" ≠ base := by
  intro same
  have digits : toString n = "" := String.append_eq_left_iff.mp same
  exact Nat.repr_ne_empty digits

/-- The first name from a number on that is free, or the last one that is tried. -/
theorem numberedName_first (base : String) (used : List String) (tries n : Nat) :
    ∃ k, n ≤ k ∧ numberedName base used tries n = s!"{base}{k}" ∧ (s!"{base}{k}" ∉ used ∨ k = n + tries) ∧
      ∀ m, n ≤ m → m < k → s!"{base}{m}" ∈ used := by
  induction tries generalizing n with
  | zero => exact ⟨n, Nat.le_refl n, rfl, Or.inr rfl, fun m low high => absurd low (Nat.not_le.mpr high)⟩
  | succ tries ih =>
    rw [numberedName]
    split
    · rename_i taken
      obtain ⟨k, low, name, last, below⟩ := ih (n + 1)
      refine ⟨k, Nat.le_of_succ_le low, name, ?_, fun m from' high => ?_⟩
      · exact last.imp_right fun same => by omega
      · rcases Nat.eq_or_lt_of_le from' with rfl | later
        · exact List.contains_iff_mem.mp taken
        · exact below m later high
    · rename_i free
      refine ⟨n, Nat.le_refl n, rfl, Or.inl fun taken => free (List.contains_iff_mem.mpr taken), ?_⟩
      exact fun m low high => absurd low (Nat.not_le.mpr high)

/-- Of one number more than the other names that are taken, one is free. -/
theorem exists_free {base : String} {used : List String} (taken : base ∈ used) :
    ∃ n, 2 ≤ n ∧ n ≤ used.length + 1 ∧ s!"{base}{n}" ∉ used := by
  by_contra none
  have all : ∀ n, 2 ≤ n → n ≤ used.length + 1 → s!"{base}{n}" ∈ used := by
    intro n low high
    by_contra free
    exact none ⟨n, low, high, free⟩
  let candidates := base :: (List.range used.length).map fun i => s!"{base}{i + 2}"
  have distinct : candidates.Nodup := by
    refine List.nodup_cons.mpr ⟨fun again => ?_, ?_⟩
    · obtain ⟨i, _, same⟩ := List.mem_map.mp again
      exact numbered_ne base _ same
    · refine List.Nodup.map (fun i j same => ?_) List.nodup_range
      exact Nat.add_right_cancel (numbered_injective same)
  have inside : candidates ⊆ used := by
    refine List.cons_subset.mpr ⟨taken, fun name member => ?_⟩
    obtain ⟨i, small, rfl⟩ := List.mem_map.mp member
    have small := List.mem_range.mp small
    exact all (i + 2) (by omega) (by omega)
  have fewer := distinct.length_le_of_subset inside
  rw [List.length_cons, List.length_map, List.length_range] at fewer
  omega

/-- A name that is free: the base, or if it is taken the base with the least number from 2 on. -/
structure Chosen (base : String) (used : List String) (name : String) : Prop where
  free : name ∉ used
  bare : base ∉ used → name = base
  least : base ∈ used → ∃ n, 2 ≤ n ∧ n ≤ used.length + 1 ∧ name = s!"{base}{n}" ∧
    ∀ m, 2 ≤ m → m < n → s!"{base}{m}" ∈ used

/-- As many tries as names are taken find a free one, so more of them change nothing. -/
theorem numberedName_chosen {base : String} {used : List String} (taken : base ∈ used) {tries : Nat}
    (enough : used.length ≤ tries) : Chosen base used (numberedName base used tries 2) := by
  obtain ⟨k, low, name, last, below⟩ := numberedName_first base used tries 2
  obtain ⟨n, two, bound, absent⟩ := exists_free taken
  have first : k ≤ n := by
    by_contra beyond
    exact absent (below n two (Nat.not_le.mp beyond))
  rw [name]
  refine ⟨last.resolve_right (by omega), fun free => absurd taken free, fun _ => ?_⟩
  exact ⟨k, low, Nat.le_trans first bound, rfl, below⟩

theorem Chosen.unique {base : String} {used : List String} {name other : String} (first : Chosen base used name)
    (second : Chosen base used other) : name = other := by
  by_cases taken : base ∈ used
  · obtain ⟨n, low, _, rfl, below⟩ := first.least taken
    obtain ⟨m, low', _, rfl, below'⟩ := second.least taken
    rcases Nat.lt_trichotomy m n with less | rfl | more
    · exact absurd (below m low' less) second.free
    · rfl
    · exact absurd (below' n low more) first.free
  · rw [first.bare taken, second.bare taken]

theorem uniqueName_chosen (base : String) (used : List String) : Chosen base used (uniqueName base used) := by
  rw [uniqueName]
  split
  · rename_i taken
    exact numberedName_chosen (List.contains_iff_mem.mp taken) (Nat.le_refl _)
  · rename_i free
    have absent : base ∉ used := fun taken => free (List.contains_iff_mem.mpr taken)
    exact ⟨absent, fun _ => rfl, fun taken => absurd taken absent⟩

/-! ### Names made one after the other -/

theorem uniqueNames_length (used bases : List String) : (uniqueNames used bases).length = bases.length := by
  induction bases generalizing used with
  | nil => rfl
  | cons base rest ih => rw [uniqueNames, List.length_cons, List.length_cons, ih]

theorem uniqueNames_free (used bases : List String) : ∀ name ∈ uniqueNames used bases, name ∉ used := by
  induction bases generalizing used with
  | nil => exact fun _ member => nomatch member
  | cons base rest ih =>
    intro name member
    rcases List.mem_cons.mp member with rfl | later
    · exact (uniqueName_chosen base used).free
    · exact fun taken => ih _ name later (List.mem_cons_of_mem _ taken)

theorem uniqueNames_nodup (used bases : List String) : (uniqueNames used bases).Nodup := by
  induction bases generalizing used with
  | nil => exact List.nodup_nil
  | cons base rest ih =>
    exact List.nodup_cons.mpr ⟨fun again => uniqueNames_free _ _ _ again List.mem_cons_self, ih _⟩

/-! ### Methods and the constants they refer to -/

/-- What is called on the record. -/
def callOf : Accessor → String
  | .get => "get"
  | .set => "set"
  | .append => "append"
  | .getEntry => "map_get"
  | .putEntry => "map_put"
  | .removeEntry => "map_remove"

/-- What follows the constant in the call. -/
def argumentsOf : Accessor → String
  | .get => ")"
  | .set => ", Value::from(value))"
  | .append => ", Value::from(item))"
  | .getEntry => ", key)"
  | .putEntry => ", key, Value::from(value))"
  | .removeEntry => ", key)"

namespace Method

/-- The method passes a constant of its type to the record. -/
def Refers (method : Method) (constant : String) : Prop :=
  ∃ accessor,
    method.body = "self.record." ++ callOf accessor ++ "(Self::" ++ constant ++ argumentsOf accessor

theorem of_body (field : Field) (constant : String) (accessor : Accessor) :
    (of field constant accessor).body =
      "self.record." ++ callOf accessor ++ "(Self::" ++ constant ++ argumentsOf accessor := by
  apply String.toList_injective
  cases accessor <;> simp [of, callOf, argumentsOf]

theorem of_refers_iff {field : Field} {constant other : String} {accessor : Accessor} :
    (of field constant accessor).Refers other ↔ other = constant := by
  constructor
  · rintro ⟨called, same⟩
    rw [of_body] at same
    have chars := congrArg String.toList same
    apply String.toList_injective
    cases accessor <;> cases called <;> simp [callOf, argumentsOf] at chars <;> exact chars.symm
  · rintro rfl
    exact ⟨accessor, of_body field other accessor⟩

end Method

/-! ### The constants of a record -/

/-- Each field has a constant with its number, and the methods for the field refer to no other. -/
structure Bound (layout : Layout) : Prop where
  distinct : (fieldConstants layout).Nodup
  unreserved : ∀ constant ∈ fieldConstants layout, constant ∉ reservedConstants
  each : (fieldConstants layout).length = layout.fieldCount
  declared : ∀ {i : Nat} {constant : String}, (fieldConstants layout)[i]? = some constant →
    (recordConstants layout)[i]? = some ⟨constant, "usize", toString i⟩
  accessed : ∀ {i : Nat} {field : Field} {constant : String}, layout.field? i = some field →
    (fieldConstants layout)[i]? = some constant → ∀ accessor ∈ field.accessors,
      Method.of field constant accessor ∈ recordMethods layout ∧
        ∀ other, (Method.of field constant accessor).Refers other ↔ other = constant
  only : ∀ method ∈ recordMethods layout, ∃ i field constant accessor, layout.field? i = some field ∧
    (fieldConstants layout)[i]? = some constant ∧ accessor ∈ field.accessors ∧
      method = Method.of field constant accessor

theorem bound_of_indexed {layout : Layout}
    (indexed : ∀ {i : Nat} {field : Field}, layout.field? i = some field → field.index = i) : Bound layout where
  distinct := uniqueNames_nodup _ _
  unreserved := uniqueNames_free _ _
  each := by rw [fieldConstants, uniqueNames_length, List.length_map, Layout.fieldCount]
  declared {i constant} known := by
    obtain ⟨short, _⟩ := List.getElem?_eq_some_iff.mp known
    rw [fieldConstants, uniqueNames_length, List.length_map] at short
    have found : layout.field? i = some layout.fields[i] := List.getElem?_eq_getElem short
    have pair : (layout.fields.zip (fieldConstants layout))[i]? = some (layout.fields[i], constant) :=
      List.getElem?_zip_eq_some.mpr ⟨found, known⟩
    rw [recordConstants, List.getElem?_map, pair, Option.map_some]
    dsimp only
    rw [indexed found]
  accessed {i field constant} known named accessor offered := by
    refine ⟨List.mem_flatMap.mpr ⟨(field, constant), ?_, List.mem_map_of_mem offered⟩,
      fun _ => Method.of_refers_iff⟩
    exact List.mem_of_getElem? (List.getElem?_zip_eq_some.mpr ⟨known, named⟩)
  only method member := by
    obtain ⟨⟨field, constant⟩, pair, offered⟩ := List.mem_flatMap.mp member
    obtain ⟨accessor, among, rfl⟩ := List.mem_map.mp offered
    obtain ⟨i, found⟩ := List.getElem?_of_mem pair
    obtain ⟨known, named⟩ := List.getElem?_zip_eq_some.mp found
    exact ⟨i, field, constant, accessor, known, named, among, rfl⟩

/-! ### The types of a registry -/

/-- The full names of all types, in the order of their identifiers. -/
def fullNames (registry : Registry) : List String :=
  registry.enums.map EnumType.fullName ++ registry.fixed.map FixedType.fullName ++
    registry.records.map fun record => record.layout.fullName

section Types

open Registry Schema

variable {types : List Schema} {α : Type} {part? : Schema → Option α} {whole : α → Schema}

theorem nodup_partNames (inverse : ∀ type a, part? type = some a ↔ type = whole a)
    (injective : ∀ {a b}, whole a = whole b → a = b) (distinct : (types.map Schema.typeName).Nodup) :
    ((types.filterMap part?).map fun a => (whole a).typeName).Nodup := by
  refine List.Nodup.map_on (fun a inA b inB same => ?_) (nodup_parts inverse (List.Nodup.of_map _ distinct))
  have first := (mem_parts inverse).mp inA
  exact injective (List.inj_on_of_nodup_map distinct first ((mem_parts inverse).mp inB) same)

/-- Types of different kinds have different names. -/
theorem partNames_ne {β : Type} {other? : Schema → Option β} {of : β → Schema}
    (inverse : ∀ type a, part? type = some a ↔ type = whole a)
    (others : ∀ type b, other? type = some b ↔ type = of b)
    (kinds : ∀ a b, whole a ≠ of b) (distinct : (types.map Schema.typeName).Nodup) :
    ∀ name ∈ (types.filterMap part?).map fun a => (whole a).typeName,
      ∀ name' ∈ (types.filterMap other?).map fun b => (of b).typeName, name ≠ name' := by
  intro name first name' second same
  obtain ⟨a, inA, rfl⟩ := List.mem_map.mp first
  obtain ⟨b, inB, rfl⟩ := List.mem_map.mp second
  have first := (mem_parts inverse).mp inA
  exact kinds a b (List.inj_on_of_nodup_map distinct first ((mem_parts others).mp inB) same)

/-- What is compiled are types that the roots reach, none of them twice. -/
theorem compile_parts {catalog : Catalog} {roots : List Schema} {registry : Registry}
    (compiled : Registry.compile catalog roots = .ok registry) :
    ∃ types : List Schema, (types.map Schema.typeName).Nodup ∧ (∀ type ∈ types, Reachable catalog roots type) ∧
      registry = ⟨(types.filterMap Schema.record?).map (compiledOf catalog), types.filterMap Schema.enum?,
        types.filterMap Schema.fixed?⟩ := by
  rw [compile_eq, foldl_put] at compiled
  obtain ⟨_, _, compiled⟩ := Result.bind_ok compiled
  obtain ⟨_, _, compiled⟩ := Result.bind_ok compiled
  obtain rfl := Result.pure_ok compiled
  have distinct := levelAt_distinct catalog roots (searchBound catalog roots)
  rw [Level.found, levelAt_end, List.append_nil] at distinct
  exact ⟨_, distinct, fun _ => reachable_of_mem_before, by simp only [List.nil_append]⟩

theorem compile_fullNames {catalog : Catalog} {roots : List Schema} {registry : Registry}
    (compiled : Registry.compile catalog roots = .ok registry) : (fullNames registry).Nodup := by
  obtain ⟨types, distinct, _, rfl⟩ := compile_parts compiled
  simp only [fullNames, List.map_map]
  refine List.nodup_append.mpr ⟨List.nodup_append.mpr ⟨?enums, ?fixed, ?first⟩, ?records, ?second⟩
  case enums => exact nodup_partNames enum?_iff Schema.enum.inj distinct
  case fixed => exact nodup_partNames fixed?_iff Schema.fixed.inj distinct
  case records => exact nodup_partNames record?_iff Schema.record.inj distinct
  case first => exact partNames_ne enum?_iff fixed?_iff (by rintro _ _ ⟨⟩) distinct
  case second =>
    intro name member
    rcases List.mem_append.mp member with enum | fixed
    · exact partNames_ne enum?_iff record?_iff (by rintro _ _ ⟨⟩) distinct name enum
    · exact partNames_ne fixed?_iff record?_iff (by rintro _ _ ⟨⟩) distinct name fixed

end Types

/-! ### Main result -/

/-- The names of generated source: an identifier for each type, and the constants of each record. -/
structure Apart (registry : Registry) : Prop where
  distinct : (typeNames registry).Nodup
  unreserved : ∀ name ∈ typeNames registry, name ∉ reservedNames
  each : (typeNames registry).length = (fullNames registry).length
  types : (fullNames registry).Nodup
  records : ∀ record ∈ registry.records, Bound record.layout

/-- Whatever was compiled, its identifiers differ and are bound to their types and fields. A name that is taken
gets the least free number, which as many tries as names are taken find, and more tries change nothing. -/
theorem names_apart {catalog : Catalog} {roots : List Schema} {registry : Registry}
    (compiled : Registry.compile catalog roots = .ok registry) :
    Apart registry ∧ ∀ (base : String) (used : List String), Chosen base used (uniqueName base used) ∧
      (base ∈ used → ∀ tries, used.length ≤ tries → numberedName base used tries 2 = uniqueName base used) := by
  constructor
  · refine ⟨uniqueNames_nodup _ _, uniqueNames_free _ _, ?each, compile_fullNames compiled,
      fun record member => ?records⟩
    case each =>
      rw [typeNames, uniqueNames_length, bareNames, fullNames]
      simp only [List.length_append, List.length_map]
    case records =>
      refine bound_of_indexed fun {i field} known => ?_
      obtain ⟨fields, _, _, same⟩ := Registry.layout_of_ok.mp (Registry.compile_made compiled record member).1
      rw [Layout.field?, same, Layout.getElem?_fieldsOf] at known
      obtain ⟨type, _, rfl⟩ := Option.map_eq_some_iff.mp known
      rfl
  · intro base used
    refine ⟨uniqueName_chosen base used, fun taken tries enough => ?_⟩
    exact (numberedName_chosen taken enough).unique (uniqueName_chosen base used)

namespace Pages

def fields : List FieldType :=
  [⟨"baseUrl", .primitive .string⟩, ⟨"base_url", .primitive .string⟩, ⟨"typeName", .primitive .int⟩]

/-- Two types of one bare name, and one whose name is what the second gets. -/
def catalog : Catalog :=
  ⟨[⟨"Page", some "web", none, some (FieldSchema.numbered fields)⟩,
    ⟨"Page", some "archive", none, some []⟩, ⟨"Page2", none, none, some []⟩]⟩

def roots : List Schema := [.record ⟨"Page", some "web", 0⟩, .record ⟨"Page", some "archive", 1⟩,
  .record ⟨"Page2", none, 2⟩]

def registry : Registry := ⟨(roots.filterMap Schema.record?).map (Registry.compiledOf catalog), [], []⟩

end Pages

theorem names_apart_pages : Registry.compile Pages.catalog Pages.roots = .ok Pages.registry ∧
    Apart Pages.registry ∧ typeNames Pages.registry = ["Page", "Page2", "Page22"] ∧
    (Pages.registry.records.map fun record => fieldConstants record.layout) =
      [["BASE_URL", "BASE_URL2", "TYPE_NAME2"], [], []] := by
  have compiled : Registry.compile Pages.catalog Pages.roots = .ok Pages.registry := rfl
  exact ⟨compiled, (names_apart compiled).1, by decide, by decide⟩

end TrackedRecord.Source
