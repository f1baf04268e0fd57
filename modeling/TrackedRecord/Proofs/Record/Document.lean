import TrackedRecord.Proofs.Json.Induction
import TrackedRecord.Proofs.Record.Typed
import TrackedRecord.Proofs.Registry.Built
import TrackedRecord.Record.Document

/-!
# Reading documents

A document that is read gives a value of the schema, and the records in it are typed.
-/

namespace TrackedRecord.Document

variable {registry : Registry} {path : String}

theorem require_ok {α : Type} {cause : Unfit} {found : Option α} {a : α} :
    require path cause found = .ok a ↔ found = some a := by
  unfold require
  cases found <;> simp [refuse]

/-! ### One step of reading -/

/-- The value that a document stands for once null unions are left off. -/
inductive Reads (registry : Registry) (path : String) : Schema → Json → Value → Prop where
  | primitive {kind : Primitive} {json : Json} {value : Value} (read : primitiveOf path kind json = .ok value) :
      Reads registry path (.primitive kind) json value
  | enum {e : EnumType} {json : Json} {value : Value} (read : enumOf path e json = .ok value) :
      Reads registry path (.enum e) json value
  | fixed {f : FixedType} {json : Json} {value : Value} (read : fixedOf path f json = .ok value) :
      Reads registry path (.fixed f) json value
  | record {type : RecordRef} {members : List (String × Json)} {compiled : CompiledRecord} {r : Record Value}
      (known : registry.record? type.fullName = some compiled)
      (read : setMembers registry compiled.layout (compiled.fresh compiled.layout) members = .ok r) :
      Reads registry path (.record type) (.object members) (.record r.clearState)
  | array {element : Schema} {items : List Json} {values : List Value}
      (read : itemsOf registry path element 0 items = .ok values) :
      Reads registry path (.array element) (.array items) (.array values)
  | map {schema : Schema} {members : List (String × Json)} {m : StateMap Value}
      (read : putEntries registry path schema StateMap.empty members = .ok m) :
      Reads registry path (.map schema) (.object members) (.map m)
  | nullBranch {branches : List Schema} {branch : Nat} (found : branches.findIdx? Schema.isNull = some branch) :
      Reads registry path (.union branches) .null (.union branch .null)
  | labelled {branches : List Schema} {branch : Nat} {label : String} {schema : Schema} {json : Json}
      {value : Value} (found : branchNamed? label branches = some (branch, schema))
      (read : valueOf registry path schema json = .ok value) :
      Reads registry path (.union branches) (.object [(label, json)]) (.union branch value)

theorem valueOf_ok {schema : Schema} {json : Json} {value : Value} :
    valueOf registry path schema json = .ok value ↔
      if schema.nullableInner?.isSome && json.isNull then value = .null
      else Reads registry path schema.core json value := by
  unfold valueOf
  cases schema.nullableInner?.isSome && json.isNull with
  | true => simp only [if_pos]; constructor <;> rintro ⟨⟩ <;> rfl
  | false =>
    simp only [Bool.false_eq_true, if_false]
    generalize schema.core = core
    constructor
    · intro read
      split at read
      · exact .primitive read
      · exact .enum read
      · exact .fixed read
      · obtain ⟨compiled, known, read⟩ := Result.bind_ok read
        obtain ⟨r, set, rfl⟩ := Result.part_ok.mp read
        exact .record (require_ok.mp known) set
      · obtain ⟨_, _, read⟩ := Result.bind_ok read
        cases read
      · obtain ⟨values, each, rfl⟩ := Result.part_ok.mp read
        exact .array each
      · cases read
      · obtain ⟨m, each, rfl⟩ := Result.part_ok.mp read
        exact .map each
      · cases read
      · obtain ⟨branch, found, rfl⟩ := Result.part_ok.mp read
        exact .nullBranch (require_ok.mp found)
      · split at read
        · obtain ⟨value, inner, rfl⟩ := Result.part_ok.mp read
          exact .labelled ‹_› inner
        · cases read
      · cases read
    · intro reads
      cases reads with
      | primitive read => exact read
      | enum read => exact read
      | fixed read => exact read
      | record known read =>
        exact (Result.bind_of_ok (require_ok.mpr known)).trans (Result.part_ok.mpr ⟨_, read, rfl⟩)
      | array read => exact Result.part_ok.mpr ⟨_, read, rfl⟩
      | map read => exact Result.part_ok.mpr ⟨_, read, rfl⟩
      | nullBranch found => exact Result.part_ok.mpr ⟨_, require_ok.mpr found, rfl⟩
      | labelled found read =>
        dsimp only
        rw [found]
        exact Result.part_ok.mpr ⟨_, read, rfl⟩

theorem branchNamed?_some {label : String} {branches : List Schema} {branch : Nat} {schema : Schema}
    (found : branchNamed? label branches = some (branch, schema)) :
    branches[branch]? = some schema ∧ schema.typeName = label := by
  unfold branchNamed? at found
  obtain ⟨⟨type, i⟩, first, same⟩ := Option.map_eq_some_iff.mp found
  cases same
  exact ⟨List.mem_zipIdx_iff_getElem?.mp (List.mem_of_find?_eq_some first), by simpa using List.find?_some first⟩

/-! ### Parts of a document -/

theorem itemsOf_forall {P : Value → Prop} {element : Schema} {items : List Json} {i : Nat} {values : List Value}
    (each : ∀ item ∈ items, ∀ path value, valueOf registry path element item = .ok value → P value)
    (read : itemsOf registry path element i items = .ok values) : ∀ value ∈ values, P value := by
  induction items generalizing i values with
  | nil =>
    rw [itemsOf] at read
    cases read
    exact List.forall_mem_nil _
  | cons item rest ih =>
    rw [itemsOf] at read
    obtain ⟨value, others, first, later, rfl⟩ := Result.parts_ok.mp read
    rw [List.forall_mem_cons] at each ⊢
    exact ⟨each.1 _ _ first, ih each.2 later⟩

theorem putEntries_forall {P : Value → Prop} {schema : Schema} {members : List (String × Json)}
    {m m' : StateMap Value}
    (each : ∀ member ∈ members, ∀ path value, valueOf registry path schema (Prod.snd member) = .ok value → P value)
    (before : ∀ entry ∈ m.entries, P entry.2) (read : putEntries registry path schema m members = .ok m') :
    ∀ entry ∈ m'.entries, P entry.2 := by
  induction members generalizing m with
  | nil =>
    rw [putEntries] at read
    cases read
    exact before
  | cons member rest ih =>
    obtain ⟨key, json⟩ := member
    rw [putEntries] at read
    rw [List.forall_mem_cons] at each
    obtain ⟨value, first, read⟩ := Result.bind_ok read
    refine ih each.2 (fun entry member => ?_) read
    rcases Keyed.mem_put member with rfl | present
    · exact each.1 _ _ first
    · exact before entry present

/-- Reading the members of an object is setting one field after the other. -/
theorem setMembers_induction {P : Record Value → Prop} {layout : Layout} {members : List (String × Json)}
    {r r' : Record Value}
    (step : ∀ member ∈ members, ∀ r next path index field value, P r → layout.field? index = some field →
      valueOf registry path field.schema (Prod.snd member) = .ok value → r.set index value = .ok next → P next)
    (start : P r) (read : setMembers registry layout r members = .ok r') : P r' := by
  induction members generalizing r with
  | nil =>
    rw [setMembers] at read
    cases read
    exact start
  | cons member rest ih =>
    obtain ⟨name, json⟩ := member
    rw [setMembers] at read
    rw [List.forall_mem_cons] at step
    obtain ⟨index, _, read⟩ := Result.bind_ok read
    obtain ⟨field, known, read⟩ := Result.bind_ok read
    obtain ⟨value, first, read⟩ := Result.bind_ok read
    obtain ⟨next, set, read⟩ := Result.bind_ok read
    exact ih step.2 (step.1 _ _ _ _ _ _ start (Layout.fieldAt_ok.mp known) first set) read

theorem set_layout {r r' : Record Value} {index : Nat} {value : Value} (set : r.set index value = .ok r') :
    r'.layout = r.layout := by
  obtain ⟨_, _, _, rfl⟩ := Change.apply_ok.mp (show (Change.set index value).apply r = .ok r' from set)
  rfl

theorem setMembers_layout {layout : Layout} {members : List (String × Json)} {r r' : Record Value}
    (read : setMembers registry layout r members = .ok r') : r'.layout = r.layout := by
  refine setMembers_induction (P := fun s => s.layout = r.layout) ?_ rfl read
  intro member _ s next _ index field value same _ _ set
  exact (set_layout set).trans same

/-! ### What is read conforms -/

/-- Makers give instances of the types that they are asked for. -/
def MakesNamed (registry : Registry) : Prop :=
  ∀ name compiled, registry.record? name = some compiled → (compiled.fresh compiled.layout).typeName = name

/-- Makers give instances of the layouts that they are handed. -/
def MakesOwn (registry : Registry) : Prop :=
  ∀ name compiled, registry.record? name = some compiled →
    (compiled.fresh compiled.layout).layout = compiled.layout

theorem MakesOwn.named (own : MakesOwn registry) : MakesNamed registry := by
  intro name compiled known
  rw [Record.typeName, own name compiled known]
  exact Registry.fullName_of_record? known

/-- Whatever schema the document is read for, the value conforms to it. -/
def GivesConforming (registry : Registry) (json : Json) : Prop :=
  ∀ path schema value, valueOf registry path schema json = .ok value → value.conforms schema = true

theorem primitiveOf_conforms {kind : Primitive} {json : Json} {value : Value}
    (read : primitiveOf path kind json = .ok value) : value.conforms (.primitive kind) = true := by
  rw [Value.conforms]
  cases kind <;> obtain ⟨_, _, rfl⟩ := Result.map_ok.mp read <;> rfl

theorem enumOf_conforms {e : EnumType} {json : Json} {value : Value} (read : enumOf path e json = .ok value) :
    ∃ ordinal, value = .enum ordinal ∧ ordinal < e.symbols.length := by
  obtain ⟨symbol, _, read⟩ := Result.bind_ok read
  obtain ⟨ordinal, known, rfl⟩ := Result.part_ok.mp read
  exact ⟨ordinal, rfl, (List.findIdx?_eq_some_iff_getElem.mp (require_ok.mp known)).1⟩

theorem fixedOf_conforms {f : FixedType} {json : Json} {value : Value} (read : fixedOf path f json = .ok value) :
    ∃ data, value = .fixed data ∧ data.length = f.size := by
  obtain ⟨data, _, read⟩ := Result.bind_ok read
  by_cases size : data.length = f.size
  · rw [if_neg (not_not_intro size)] at read
    exact ⟨data, Result.pure_ok read, size⟩
  · rw [if_pos size] at read
    cases read

theorem Reads.conforms {schema : Schema} {json : Json} {value : Value} (makes : MakesNamed registry)
    (tagged : schema.nullableInner? = none) (parts : ∀ part ∈ json.parts, GivesConforming registry part)
    (reads : Reads registry path schema json value) : value.conforms schema = true := by
  cases reads with
  | primitive read => exact primitiveOf_conforms read
  | enum read =>
    obtain ⟨ordinal, rfl, small⟩ := enumOf_conforms read
    exact Value.conforms_enum.mpr ⟨_, rfl, small⟩
  | fixed read =>
    obtain ⟨data, rfl, size⟩ := fixedOf_conforms read
    exact Value.conforms_fixed.mpr ⟨_, rfl, size⟩
  | @record type _ compiled r known read =>
    have named : r.typeName = type.fullName := by
      rw [← makes _ _ known, Record.typeName, setMembers_layout read]
      rfl
    exact Value.conforms_record.mpr ⟨_, rfl, named⟩
  | array read =>
    have each := itemsOf_forall (fun item inside path value => parts item inside path _ value) read
    exact Value.conforms_array.mpr ⟨_, rfl, each⟩
  | map read =>
    have each := putEntries_forall (fun member inside path value =>
      List.forall_mem_map.mp parts member inside path _ value) (List.forall_mem_nil _) read
    exact Value.conforms_map.mpr ⟨_, rfl, each⟩
  | @nullBranch branches branch found =>
    obtain ⟨inside, null, _⟩ := List.findIdx?_eq_some_iff_getElem.mp found
    have fits : Value.null.conforms branches[branch] = true := by
      rw [Schema.eq_null null]
      rfl
    have here := List.getElem?_eq_getElem inside
    exact (Value.conforms_tagged (Schema.nullPosition?_none tagged)).mpr ⟨_, _, _, rfl, here, fits⟩
  | labelled found read =>
    obtain ⟨here, _⟩ := branchNamed?_some found
    have fits := parts _ List.mem_cons_self _ _ _ read
    exact (Value.conforms_tagged (Schema.nullPosition?_none tagged)).mpr ⟨_, _, _, rfl, here, fits⟩

theorem valueOf_conforms (makes : MakesNamed registry) (json : Json) : GivesConforming registry json := by
  induction json using Json.induction with
  | step json ih =>
    intro path schema value read
    rw [valueOf_ok] at read
    split at read
    · rename_i absent
      rw [Bool.and_eq_true] at absent
      subst read
      exact Value.conforms_core.mpr (Or.inl ⟨rfl, absent.1⟩)
    · exact Value.conforms_core.mpr (Or.inr (read.conforms makes (Schema.core_tagged schema) ih))

/-! ### What is read is typed -/

/-- Whatever schema the document is read for, the value conforms to it and is typed. -/
def GivesTyped (registry : Registry) (json : Json) : Prop :=
  ∀ path schema value, valueOf registry path schema json = .ok value →
    value.conforms schema = true ∧ value.Typed registry

theorem setMembers_typed {layout : Layout} {members : List (String × Json)} {r r' : Record Value}
    (each : ∀ member ∈ members, GivesTyped registry (Prod.snd member)) (typed : (Value.record r).Typed registry)
    (read : setMembers registry layout r members = .ok r') : (Value.record r').Typed registry := by
  refine setMembers_induction (P := fun r => (Value.record r).Typed registry) ?_ typed read
  intro member inside r next path index field value typed _ first set
  have supplied : ∀ v, (Change.set index value).supplied? = some v → v.Typed registry := by
    rintro _ ⟨⟩
    exact (each member inside _ _ _ first).2
  exact Record.change_typed typed supplied (show (Change.set index value).apply r = .ok next from set)

theorem Reads.typed {schema : Schema} {json : Json} {value : Value} (makes : registry.MakesTyped)
    (parts : ∀ part ∈ json.parts, GivesTyped registry part) (reads : Reads registry path schema json value) :
    value.Typed registry := by
  cases reads with
  | primitive read => exact (Value.flat_of_primitive (primitiveOf_conforms read)).every
  | enum read =>
    obtain ⟨ordinal, rfl, _⟩ := enumOf_conforms read
    exact (Value.flat_enum _).every
  | fixed read =>
    obtain ⟨data, rfl, _⟩ := fixedOf_conforms read
    exact (Value.flat_fixed _).every
  | record known read =>
    exact Record.clearState_typed (setMembers_typed (List.forall_mem_map.mp parts) (makes _ _ known).2 read)
  | array read =>
    have each := itemsOf_forall (fun item inside path value => parts item inside path _ value) read
    exact Value.every_array.mpr fun item inside => (each item inside).2
  | map read =>
    have each := putEntries_forall (fun member inside path value =>
      List.forall_mem_map.mp parts member inside path _ value) (List.forall_mem_nil _) read
    exact Value.every_map.mpr fun entry inside => (each entry inside).2
  | nullBranch => exact Value.every_union.mpr Value.every_null
  | labelled found read => exact Value.every_union.mpr (parts _ List.mem_cons_self _ _ _ read).2

theorem valueOf_typed (makes : registry.MakesTyped) (json : Json) : GivesTyped registry json := by
  have own : MakesOwn registry := fun name compiled known => (makes name compiled known).1
  induction json using Json.induction with
  | step json ih =>
    intro path schema value read
    refine ⟨valueOf_conforms own.named json path schema value read, ?_⟩
    rw [valueOf_ok] at read
    split at read
    · subst read
      exact Value.every_null
    · exact read.typed makes ih

/-- A record that is read from a document is typed throughout. -/
theorem recordOf_typed (makes : registry.MakesTyped) {name : String} {compiled : CompiledRecord}
    (known : registry.record? name = some compiled) {json : Json} {r : Record Value}
    (read : recordOf registry compiled json = .ok r) : (Value.record r).Typed registry := by
  unfold recordOf at read
  split at read
  · exact setMembers_typed (fun member _ => valueOf_typed makes member.2) (makes _ _ known).2 read
  · cases read

end TrackedRecord.Document
