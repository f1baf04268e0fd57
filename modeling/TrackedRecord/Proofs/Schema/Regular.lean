import TrackedRecord.Proofs.Schema.Parsed

/-!
# Regular schemas

What calls give and leave behind is regular: definitions have valid names, the symbols of an enum, the fields
of a record and the labels of a union's branches are distinct, and no union stands right inside another. That
holds after calls that are refused as well.
-/

namespace TrackedRecord

open Vocabulary (ValidName isName)

inductive Schema.Regular : Schema → Prop where
  | primitive (kind : Primitive) : Regular (.primitive kind)
  | enum {e : EnumType} (named : ValidName e.scope e.name) (nonempty : e.symbols ≠ []) (distinct : e.symbols.Nodup)
      (symbols : ∀ symbol ∈ e.symbols, isName symbol = true) : Regular (.enum e)
  | fixed {f : FixedType} (named : ValidName f.scope f.name) : Regular (.fixed f)
  | record {r : RecordRef} (named : ValidName r.scope r.name) : Regular (.record r)
  | array {element : Schema} (regular : Regular element) : Regular (.array element)
  | map {value : Schema} (regular : Regular value) : Regular (.map value)
  | union {branches : List Schema} (nonempty : branches ≠ []) (labels : (branches.map Schema.typeName).Nodup)
      (noUnion : ∀ branch ∈ branches, branch.isUnion = false) (regular : ∀ branch ∈ branches, Regular branch) :
      Regular (.union branches)

/-- Fields with distinct valid names and regular schemas. -/
structure FieldType.Regular (fields : List FieldType) : Prop where
  distinct : (fields.map FieldType.name).Nodup
  each : ∀ field ∈ fields, isName field.name = true ∧ field.schema.Regular

namespace Vocabulary

structure Regular (v : Vocabulary) : Prop where
  made : v.catalog.Made
  named : ∀ {full schema}, Keyed.get? full v.named = some schema → schema.Regular
  fields : ∀ {r fields}, v.catalog.fields? r = some fields → FieldType.Regular fields

variable {v v' : Vocabulary} {α β : Type}

/-- The computation keeps vocabularies regular, and `result` holds of what it gives. -/
def Steady (p : Parsing α) (result : α → Prop) : Prop :=
  ∀ v : Vocabulary, v.Regular → Ends p v (fun a v' => v'.Regular ∧ result a) Regular

namespace Steady

variable {p : Parsing α} {result : α → Prop} {last : β → Prop}

theorem pure {a : α} (holds : result a) : Steady (pure a) result := fun _ regular => Ends.pure ⟨regular, holds⟩

theorem refuse {node : String} {cause : SchemaError.Cause} : Steady (refuse node cause) result :=
  fun _ regular => Ends.refuse regular

theorem bind {f : α → Parsing β} (first : Steady p result) (rest : ∀ a, result a → Steady (f a) last) :
    Steady (p >>= f) last :=
  fun v regular => Ends.bind (first v regular) fun a v' ⟨kept, holds⟩ => rest a holds v' kept

theorem check {f : α → Parsing β} {found : α → Prop} (first : ∀ v : Vocabulary, v.Regular → Checks p v found)
    (rest : ∀ a, found a → Steady (f a) last) : Steady (p >>= f) last :=
  fun v regular => (first v regular).bind regular fun a holds => rest a holds v regular

theorem map {g : α → β} (inner : Steady p result) (holds : ∀ a, result a → last (g a)) :
    Steady (do let a ← p; return g a) last :=
  inner.bind fun a result => .pure (holds a result)

end Steady

/-! ### Declaring -/

theorem Regular.put {full : String} {schema : Schema} {catalog : Catalog} (regular : v.Regular)
    (new : schema.Regular) (made : catalog.Made) (grows : v.catalog.Extends catalog) :
    Regular ⟨catalog, Keyed.put full schema v.named⟩ where
  made := made
  named {other type} known := by
    rw [Keyed.get?_put] at known
    split at known
    · exact Option.some.inj known ▸ new
    · exact regular.named known
  fields known := regular.fields (grows.fields known)

theorem register_steady {full : String} {schema : Schema} (new : schema.Regular) :
    Steady (register full schema) fun _ => True := by
  intro v regular
  unfold register
  refine Ends.get ?_
  dsimp only
  split
  · exact Ends.refuse_bind regular
  · exact ⟨regular.put new regular.made ⟨id, id⟩, trivial⟩

theorem registerRecord_steady {full name : String} {scope doc : Option String} (valid : ValidName scope name) :
    Steady (registerRecord full name scope doc) fun _ => True := by
  intro v regular
  unfold registerRecord
  refine Ends.get ?_
  dsimp only
  split
  · exact Ends.refuse_bind regular
  · have new : (Schema.record (v.catalog.declare name scope doc).1).Regular := .record valid
    exact ⟨regular.put new (regular.made.declare name scope doc) (v.catalog.declare_extends name scope doc), trivial⟩

theorem declareEnum_steady {head : Node.Head} {enclosing : Option String}
    {symbols : Option (List (Option String))} : Steady (declareEnum head enclosing symbols) fun _ => True := by
  refine Steady.check (fun _ _ => definitionName_checks) ?_
  rintro ⟨scope, name, full⟩ ⟨_, valid, _⟩
  refine Steady.check (fun _ _ => Checks.require) fun symbols _ => ?_
  refine Steady.check (fun _ _ => validSymbols_checks) fun symbols names => ?_
  cases made : EnumType.new name scope symbols with
  | error e => exact fun v regular => Ends.throw regular
  | ok e =>
    obtain ⟨rfl, nonempty, distinct⟩ := enumType_ok made
    exact register_steady (.enum valid nonempty distinct names)

theorem declareFixed_steady {head : Node.Head} {enclosing : Option String} {size : Option Nat} :
    Steady (declareFixed head enclosing size) fun _ => True := by
  refine Steady.check (fun _ _ => definitionName_checks) ?_
  rintro ⟨scope, name, full⟩ ⟨_, valid, _⟩
  refine Steady.check (fun _ _ => Checks.require) fun size _ => ?_
  exact register_steady (.fixed valid)

theorem declareAll_steady {enclosing : Option String} {nodes : List Node}
    (each : ∀ node ∈ nodes, Steady (declare enclosing node) fun _ => True) :
    Steady (declareAll enclosing nodes) fun _ => True := by
  induction nodes with
  | nil => exact .pure trivial
  | cons node rest ih =>
    rw [List.forall_mem_cons] at each
    rw [declareAll]
    exact each.1.bind fun _ _ => ih each.2

theorem declareFields_steady {enclosing : Option String} {fields : List Node.Field}
    (each : ∀ field ∈ fields, ∀ type, field.type = some type → Steady (declare enclosing type) fun _ => True) :
    Steady (declareFields enclosing fields) fun _ => True := by
  induction fields with
  | nil => exact .pure trivial
  | cons field rest ih =>
    rw [List.forall_mem_cons] at each
    obtain ⟨isObject, name, type⟩ := field
    cases type with
    | none =>
      rw [declareFields]
      · exact ih each.2
      · rintro _ _ _ ⟨⟩
    | some type =>
      rw [declareFields]
      exact (each.1 type rfl).bind fun _ _ => ih each.2

theorem declare_steady (enclosing : Option String) (node : Node) :
    Steady (declare enclosing node) fun _ => True := by
  induction node using Node.induction generalizing enclosing with
  | union branches ih =>
    rw [declare]
    exact declareAll_steady fun node member => ih node member enclosing
  | wrapped inner ih =>
    rw [declare]
    exact ih enclosing
  | record head doc fields ih =>
    rw [declare]
    refine Steady.check (fun _ _ => definitionName_checks) ?_
    rintro ⟨scope, name, full⟩ ⟨_, valid, _⟩
    refine (registerRecord_steady valid).bind fun _ _ => ?_
    cases fields with
    | none => exact .refuse
    | some fields =>
      exact declareFields_steady fun field member type given => ih fields rfl field member type given scope
  | enum head symbols =>
    rw [declare]
    exact declareEnum_steady
  | fixed head size =>
    rw [declare]
    exact declareFixed_steady
  | array items ih =>
    cases items with
    | none => exact .pure trivial
    | some items =>
      rw [declare]
      exact ih items rfl enclosing
  | map values ih =>
    cases values with
    | none => exact .pure trivial
    | some values =>
      rw [declare]
      exact ih values rfl enclosing
  | name | foreign | untyped | tagged => exact .pure trivial

/-! ### Resolving -/

theorem Regular.define {r : RecordRef} {fields : List FieldType} {catalog : Catalog} (regular : v.Regular)
    (each : ∀ field ∈ fields, isName field.name = true ∧ field.schema.Regular)
    (defined : v.catalog.define r fields = .ok catalog) : Regular { v with catalog } := by
  refine ⟨regular.made.define defined, regular.named, fun known => ?_⟩
  rcases Catalog.define_fields defined known with rfl | same
  · exact ⟨Catalog.define_distinct defined, each⟩
  · exact regular.fields same

theorem resolveName_steady {scope : Option String} {name context : String} {cause : SchemaError.Cause} :
    Steady (do let found ← resolveName scope name; require context cause found) Schema.Regular := by
  intro v regular
  refine resolveName_checks.mono ?_ ?_
  · rintro schema _ ⟨rfl, ⟨kind, rfl⟩ | ⟨full, known⟩⟩
    · exact ⟨regular, .primitive kind⟩
    · exact ⟨regular, regular.named known⟩
  · rintro _ rfl
    exact regular

theorem declared_regular (regular : v.Regular) {head : Node.Head} {enclosing : Option String} {context : String} :
    Checks (declared head enclosing context) v fun found => found.1.Regular := by
  refine declared_checks.mono ?_ fun _ same => same
  rintro found _ ⟨rfl, _, _, known⟩
  exact ⟨rfl, regular.named known⟩

theorem declared_steady {head : Node.Head} {scope : Option String} {context : String} :
    Steady (do let (schema, _, _) ← declared head scope context; return schema) Schema.Regular :=
  Steady.check (fun _ regular => declared_regular regular) fun _ regular => .pure regular

theorem resolveBranches_steady {scope : Option String} {context : String} {nodes : List Node}
    {before : List Schema} (some : before ≠ [] ∨ nodes ≠ [])
    (each : ∀ node ∈ nodes, ∀ scope context, Steady (resolve scope context node) Schema.Regular)
    (labels : (before.map Schema.typeName).Nodup) (noUnion : ∀ branch ∈ before, branch.isUnion = false)
    (regular : ∀ branch ∈ before, branch.Regular) :
    Steady (resolveBranches scope context before nodes) Schema.Regular := by
  induction nodes generalizing before with
  | nil =>
    have nonempty : before.reverse ≠ [] := by simpa using some
    refine .pure (.union nonempty ?_ ?_ ?_)
    · rwa [List.map_reverse, (List.reverse_perm _).nodup_iff]
    · exact fun branch member => noUnion branch (List.mem_reverse.mp member)
    · exact fun branch member => regular branch (List.mem_reverse.mp member)
  | cons node rest ih =>
    rw [List.forall_mem_cons] at each
    rw [resolveBranches]
    refine (each.1 scope context).bind fun branch holds => ?_
    refine Steady.check (fun _ _ => addBranch_checks) ?_
    rintro _ ⟨rfl, flat, fresh⟩
    refine ih (Or.inl (List.cons_ne_nil _ _)) each.2 (List.nodup_cons.mpr ⟨?_, labels⟩)
      (List.forall_mem_cons.mpr ⟨flat, noUnion⟩)
      (List.forall_mem_cons.mpr ⟨holds, regular⟩)
    intro again
    obtain ⟨other, member, same⟩ := List.mem_map.mp again
    exact fresh other member same

theorem resolveFields_steady {scope : Option String} {full : String} {fields : List Node.Field}
    (each : ∀ field ∈ fields, ∀ type, field.type = some type →
      ∀ scope context, Steady (resolve scope context type) Schema.Regular) :
    Steady (resolveFields scope full fields)
      fun fields => ∀ field ∈ fields, isName field.name = true ∧ field.schema.Regular := by
  induction fields with
  | nil => exact .pure (List.forall_mem_nil _)
  | cons field rest ih =>
    rw [List.forall_mem_cons] at each
    obtain ⟨isObject, name, type⟩ := field
    rw [resolveFields]
    split
    · refine Steady.check (fun _ _ => Checks.require) fun name _ => ?_
      refine Steady.check (fun _ _ => validateName_checks) fun _ valid => ?_
      cases type with
      | none => exact .refuse
      | some type =>
        refine (each.1 type rfl scope _).bind fun schema regular => ?_
        exact (ih each.2).map fun rest others => List.forall_mem_cons.mpr ⟨⟨valid.name, regular⟩, others⟩
    · exact .refuse

theorem define_steady {r : RecordRef} {fields : List FieldType} {schema : Schema} (regular : schema.Regular)
    (each : ∀ field ∈ fields, isName field.name = true ∧ field.schema.Regular) :
    Steady
      (do
        let v ← get
        match v.catalog.define r fields with
        | .ok catalog => set { v with catalog }
        | .error e => throw e
        return schema)
      Schema.Regular := by
  intro v before
  refine Ends.get ?_
  cases defined : v.catalog.define r fields with
  | error e => exact Ends.throw_bind before
  | ok catalog => exact ⟨before.define each defined, regular⟩

theorem resolveRecord_steady {head : Node.Head} {doc : Option String} {fields : Option (List Node.Field)}
    {scope : Option String} {context : String}
    (each : ∀ entries, fields = some entries → ∀ entry ∈ entries, ∀ type, entry.type = some type →
      ∀ scope context, Steady (resolve scope context type) Schema.Regular) :
    Steady (resolve scope context (.record head doc fields)) Schema.Regular := by
  rw [resolve]
  refine Steady.check (fun v regular => declared_regular regular) ?_
  rintro ⟨schema, inner, full⟩ regular
  dsimp only at regular ⊢
  split
  · intro v before
    refine Ends.get ?_
    split
    · exact ⟨before, regular⟩
    · cases fields with
      | none => exact define_steady regular (List.forall_mem_nil _) v before
      | some entries =>
        exact ((resolveFields_steady (each entries rfl)).bind fun fields each => define_steady regular each) v before
  · exact .pure regular

theorem resolve_steady (node : Node) (scope : Option String) (context : String) :
    Steady (resolve scope context node) Schema.Regular := by
  induction node using Node.induction generalizing scope context with
  | name name =>
    rw [resolve]
    exact resolveName_steady
  | union branches ih =>
    rw [resolve]
    split
    · exact .refuse
    · rename_i nonempty
      have some : branches ≠ [] := fun empty => nonempty (empty ▸ rfl)
      exact resolveBranches_steady (Or.inr some) ih List.nodup_nil (List.forall_mem_nil _) (List.forall_mem_nil _)
  | foreign json =>
    rw [resolve]
    exact .refuse
  | untyped =>
    rw [resolve]
    exact .refuse
  | wrapped inner ih =>
    rw [resolve]
    exact ih scope context
  | record head doc fields ih => exact resolveRecord_steady ih
  | enum head symbols =>
    rw [resolve]
    exact declared_steady
  | fixed head size =>
    rw [resolve]
    exact declared_steady
  | array items ih =>
    cases items with
    | none =>
      rw [resolve]
      exact .refuse
    | some items =>
      rw [resolve]
      exact (ih items rfl scope context).map fun _ => .array
  | map values ih =>
    cases values with
    | none =>
      rw [resolve]
      exact .refuse
    | some values =>
      rw [resolve]
      exact (ih values rfl scope context).map fun _ => .map
  | tagged tag =>
    rw [resolve]
    exact resolveName_steady

/-! ### Calls -/

theorem resolveAll_steady (nodes : List Node) :
    Steady (resolveAll nodes) fun roots => ∀ root ∈ roots, root.Regular := by
  induction nodes with
  | nil => exact .pure (List.forall_mem_nil _)
  | cons node rest ih =>
    rw [resolveAll]
    refine (resolve_steady node none _).bind fun root regular => ?_
    exact ih.map fun roots others => List.forall_mem_cons.mpr ⟨regular, others⟩

theorem Call.parse_steady (call : Call) : Steady call.parse fun roots => ∀ root ∈ roots, root.Regular := by
  rw [Call.parse_eq]
  cases call.documents with
  | error e => exact fun v regular => Ends.throw regular
  | ok documents =>
    have declares := declareAll_steady fun node (_ : node ∈ documents.map Node.ofJson) => declare_steady none node
    exact declares.bind fun _ _ => resolveAll_steady _

theorem regular_new : Regular {} where
  made := .empty
  named known := nomatch known
  fields known := nomatch known

theorem Runs.regular (runs : Runs v v') (before : v.Regular) : v'.Regular := by
  induction runs with
  | nothing => exact before
  | parsed _ call run ih => exact ((call.parse_steady _ ih).ok run).1
  | refused _ call run ih => exact (call.parse_steady _ ih).error run

theorem Parsed.regular (parsed : v.Parsed) : v.Regular := by
  induction parsed with
  | new => exact regular_new
  | call _ call run ih => exact ((call.parse_steady _ ih).ok run).1

end Vocabulary

end TrackedRecord
