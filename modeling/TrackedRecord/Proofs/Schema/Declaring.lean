import TrackedRecord.Proofs.Schema.Catalog
import TrackedRecord.Proofs.Schema.Mentions
import TrackedRecord.Proofs.Schema.Node
import TrackedRecord.Proofs.Schema.Parsing

/-!
# The first pass

Declaring a batch adds the names that its nodes define and leaves all else as it was, even where it fails;
where it does not, every name was new, and each record among them waits for its fields.
-/

namespace TrackedRecord

/-- Every named type in the schema is the one known under its name, and no union stands right inside another. -/
structure Schema.Bound (names : List (String × Schema)) (schema : Schema) : Prop where
  flat : schema.Flat
  known : ∀ type ∈ schema.mentioned, Keyed.get? type.typeName names = some type

namespace Vocabulary

/-- A name that is known stands for the type with that name, each record in a place of its own, and the
fields of records mention known types. -/
structure Consistent (v : Vocabulary) : Prop where
  named : ∀ {full schema}, Keyed.get? full v.named = some schema → schema.IsNamed ∧ schema.typeName = full
  placed : ∀ {full r}, Keyed.get? full v.named = some (.record r) →
    ∃ type, v.catalog.record? r = some type ∧ type.name = r.name ∧ type.scope = r.scope
  bound : ∀ {r fields}, v.catalog.fields? r = some fields → ∀ field ∈ fields, field.schema.Bound v.named

/-- What is known in `v` is known in `v'`: each name stands for the same type, and each record has the same
fields or still has none. -/
structure Keeps (v v' : Vocabulary) : Prop where
  kept : ∀ {full schema}, Keyed.get? full v.named = some schema → Keyed.get? full v'.named = some schema
  fields : ∀ {full r}, Keyed.get? full v.named = some (.record r) → v'.catalog.fields? r = v.catalog.fields? r

/-- `v'` is `v` with some of the names of definitions added. -/
structure Adds (definitions : List Node.Definition) (v v' : Vocabulary) : Prop extends Keeps v v' where
  consistent : v'.Consistent
  added : ∀ {full}, Keyed.get? full v.named = none → (Keyed.get? full v'.named).isSome →
    ∃ d ∈ definitions, d.fullName = full

/-- The definitions are known, and records among them have no fields yet. -/
structure Pending (definitions : List Node.Definition) (v : Vocabulary) : Prop where
  distinct : (definitions.map Node.Definition.fullName).Nodup
  known : ∀ d ∈ definitions, ∃ schema, Keyed.get? d.fullName v.named = some schema ∧
    schema.isRecord = d.isRecord ∧ ∀ r, schema = .record r → v.catalog.fields? r = none

/-- All of the definitions were new and are pending now. -/
structure Declares (definitions : List Node.Definition) (v v' : Vocabulary) : Prop
    extends Adds definitions v v', Pending definitions v' where
  fresh : ∀ d ∈ definitions, Keyed.get? d.fullName v.named = none

variable {v v₁ v' : Vocabulary} {definitions more : List Node.Definition}

theorem Keeps.refl (v : Vocabulary) : Keeps v v := ⟨id, fun _ => rfl⟩

theorem Keeps.trans (first : Keeps v v₁) (second : Keeps v₁ v') : Keeps v v' where
  kept known := second.kept (first.kept known)
  fields known := (second.fields (first.kept known)).trans (first.fields known)

namespace Adds

theorem refl (consistent : v.Consistent) : Adds definitions v v where
  toKeeps := .refl v
  consistent := consistent
  added absent present := by
    rw [absent] at present
    cases present

theorem trans (first : Adds definitions v v₁) (second : Adds definitions v₁ v') : Adds definitions v v' where
  toKeeps := first.toKeeps.trans second.toKeeps
  consistent := second.consistent
  added {full} absent present := by
    cases between : Keyed.get? full v₁.named with
    | none => exact second.added between present
    | some schema => exact first.added absent (by rw [between]; rfl)

theorem weaken (adds : Adds definitions v v') (subset : ∀ d ∈ definitions, d ∈ more) : Adds more v v' where
  toKeeps := adds.toKeeps
  consistent := adds.consistent
  added absent present :=
    let ⟨d, member, same⟩ := adds.added absent present
    ⟨d, subset d member, same⟩

end Adds

namespace Declares

theorem nil (consistent : v.Consistent) : Declares [] v v where
  toAdds := .refl consistent
  distinct := List.nodup_nil
  known _ member := nomatch member
  fresh _ member := nomatch member

theorem append (first : Declares definitions v v₁) (second : Declares more v₁ v') :
    Declares (definitions ++ more) v v' where
  toAdds := by
    refine (first.toAdds.weaken ?_).trans (second.toAdds.weaken ?_)
    · exact fun d member => List.mem_append_left _ member
    · exact fun d member => List.mem_append_right _ member
  distinct := by
    rw [List.map_append, List.nodup_append]
    refine ⟨first.distinct, second.distinct, ?_⟩
    intro full member other later same
    obtain ⟨d, declared, rfl⟩ := List.mem_map.mp member
    obtain ⟨d', fresh, rfl⟩ := List.mem_map.mp later
    obtain ⟨schema, known, _⟩ := first.known d declared
    rw [same, second.fresh d' fresh] at known
    cases known
  known d member := by
    rcases List.mem_append.mp member with early | late
    · obtain ⟨schema, known, kind, pending⟩ := first.known d early
      refine ⟨schema, second.kept known, kind, ?_⟩
      rintro r rfl
      exact (second.fields known).trans (pending r rfl)
    · exact second.known d late
  fresh d member := by
    rcases List.mem_append.mp member with early | late
    · exact first.fresh d early
    · cases before : Keyed.get? d.fullName v.named with
      | none => rfl
      | some schema => exact (first.kept before).symm.trans (second.fresh d late)

end Declares

/-- The computation declares the definitions or fails after it has declared some of them. -/
def Declaring {α : Type} (p : Parsing α) (definitions : List Node.Definition) : Prop :=
  ∀ v : Vocabulary, v.Consistent →
    Ends p v (fun _ v' => Declares definitions v v') fun v' => Adds definitions v v'

namespace Declaring

variable {α β : Type} {p : Parsing α} {q : Parsing β}

theorem nothing {a : α} : Declaring (pure a) [] := fun _ consistent => Ends.pure (Declares.nil consistent)

theorem refuse {node : String} {cause : SchemaError.Cause} :
    Declaring (Vocabulary.refuse (α := α) node cause) definitions :=
  fun _ consistent => Ends.refuse (Adds.refl consistent)

theorem append (first : Declaring p definitions) (second : Declaring q more) :
    Declaring (p >>= fun _ => q) (definitions ++ more) := by
  intro v consistent
  have early (v' : Vocabulary) (adds : Adds definitions v v') : Adds (definitions ++ more) v v' :=
    adds.weaken fun d member => List.mem_append_left _ member
  refine Ends.bind ((first v consistent).mono (fun _ _ declares => declares) early) fun _ v₁ declared => ?_
  refine (second v₁ declared.consistent).mono (fun _ _ => declared.append) fun v' adds => ?_
  exact (early v₁ declared.toAdds).trans (adds.weaken fun d member => List.mem_append_right _ member)

end Declaring

/-! ### Names of definitions -/

/-- A bare name and a namespace that are made of names. -/
structure ValidName (scope : Option String) (name : String) : Prop where
  name : isName name = true
  scope : ∀ inside, scope = some inside → (inside.splitOn ".").all isName = true

theorem splitOn_empty : "".splitOn "." = [""] := by
  rw [String.splitOn, if_neg (by decide), String.splitOnAux, if_pos (by decide)]
  rfl

/-- No valid namespace is empty, so the two ways to write a full name agree. -/
theorem ValidName.qualified {scope : Option String} {name : String} (valid : ValidName scope name) :
    qualified scope name = fullName scope name := by
  cases scope with
  | none => rfl
  | some inside =>
    rw [TrackedRecord.qualified, fullName, if_neg]
    rintro rfl
    have names := valid.scope "" rfl
    rw [splitOn_empty] at names
    cases names

theorem validateName_checks {node : String} {scope : Option String} {name : String} :
    Checks (validateName node scope name) v fun _ => ValidName scope name := by
  unfold validateName
  dsimp only
  split
  · rename_i valid
    cases scope with
    | none => exact Checks.pure ⟨valid, nofun⟩
    | some inside =>
      dsimp only
      split
      · rename_i names
        exact Checks.pure ⟨valid, fun _ same => Option.some.inj same ▸ names⟩
      · exact Checks.refuse
  · exact Ends.refuse_bind rfl

theorem definitionName_checks {head : Node.Head} {enclosing : Option String} :
    Checks (definitionName head enclosing) v fun names =>
      head.names enclosing = names ∧ ValidName names.1 names.2.1 ∧ qualified names.1 names.2.1 = names.2.2 := by
  unfold definitionName Node.Head.names
  refine Checks.require.andThen fun raw given => ?_
  rw [given]
  exact validateName_checks.andThen fun _ valid => Checks.pure ⟨rfl, valid, valid.qualified⟩

theorem validSymbols_checks {full : String} {symbols : List (Option String)} :
    Checks (validSymbols full symbols) v fun names => ∀ name ∈ names, isName name = true := by
  induction symbols with
  | nil => exact Checks.pure (List.forall_mem_nil _)
  | cons symbol rest ih =>
    rw [validSymbols]
    refine Checks.require.andThen fun symbol _ => validateName_checks.andThen fun _ valid => ?_
    exact ih.andThen fun _ others => Checks.pure (List.forall_mem_cons.mpr ⟨valid.name, others⟩)

/-! ### Registered types -/

end Vocabulary

theorem Schema.Bound.mono {names names' : List (String × Schema)} {schema : Schema} (bound : schema.Bound names)
    (kept : ∀ {full type}, Keyed.get? full names = some type → Keyed.get? full names' = some type) :
    schema.Bound names' :=
  ⟨bound.flat, fun type member => kept (bound.known type member)⟩

theorem EnumType.new.firstRepeated_none {before symbols : List String}
    (none : EnumType.new.firstRepeated before symbols = none) :
    symbols.Nodup ∧ ∀ symbol ∈ symbols, symbol ∉ before := by
  induction symbols generalizing before with
  | nil => exact ⟨List.nodup_nil, List.forall_mem_nil _⟩
  | cons symbol rest ih =>
    rw [EnumType.new.firstRepeated] at none
    split at none
    · cases none
    · rename_i fresh
      rw [List.contains_iff_mem] at fresh
      exact Keyed.distinct_cons fresh (ih none)

namespace Vocabulary

section

variable {v : Vocabulary} {full : String} {schema : Schema} {catalog : Catalog}
  (fresh : Keyed.get? full v.named = none) (named : schema.IsNamed) (name : schema.typeName = full)
  (grows : v.catalog.Extends catalog)
  (record : ∀ r, schema = .record r → ∃ type, catalog.record? r = some type ∧
    (type.name = r.name ∧ type.scope = r.scope) ∧ type.fields = none)

include fresh in
theorem get?_put_of_fresh {other : String} {type : Schema} (known : Keyed.get? other v.named = some type) :
    Keyed.get? other (Keyed.put full schema v.named) = some type := by
  rw [Keyed.get?_put, if_neg, known]
  rintro rfl
  rw [fresh] at known
  cases known

include fresh named name grows record in
theorem Consistent.put (consistent : v.Consistent) :
    Consistent ⟨catalog, Keyed.put full schema v.named⟩ := by
  constructor
  case named =>
    intro other type known
    rw [Keyed.get?_put] at known
    split at known
    · obtain rfl := Option.some.inj known
      subst_vars
      exact ⟨named, rfl⟩
    · exact consistent.named known
  case placed =>
    intro other r known
    rw [Keyed.get?_put] at known
    split at known
    · obtain ⟨type, found, same, _⟩ := record r (Option.some.inj known)
      exact ⟨type, found, same⟩
    · obtain ⟨type, found, same⟩ := consistent.placed known
      exact ⟨type, grows.kept found, same⟩
  case bound =>
    exact fun known field member =>
      (consistent.bound (grows.fields known) field member).mono (get?_put_of_fresh fresh)

include fresh named name grows record in
/-- A new name for a type; a record has no fields yet. -/
theorem declares_put (consistent : v.Consistent) :
    Declares [⟨full, schema.isRecord⟩] v ⟨catalog, Keyed.put full schema v.named⟩ := by
  constructor
  case toAdds =>
    refine ⟨⟨get?_put_of_fresh fresh, ?fields⟩, consistent.put fresh named name grows record, ?added⟩
    case fields =>
      intro other r known
      obtain ⟨type, found, _⟩ := consistent.placed known
      exact grows.fields?_eq found
    case added =>
      intro other absent present
      rw [Keyed.get?_put] at present
      split at present
      · subst_vars
        exact ⟨_, List.mem_cons_self, rfl⟩
      · rw [absent] at present
        cases present
  case toPending =>
    refine ⟨List.nodup_cons.mpr ⟨List.not_mem_nil, List.nodup_nil⟩, List.forall_mem_singleton.mpr ?_⟩
    refine ⟨schema, (Keyed.get?_put ..).trans (if_pos rfl), rfl, ?_⟩
    intro r same
    obtain ⟨type, found, _, none⟩ := record r same
    rw [Catalog.fields?, found]
    exact congrArg (Option.map _) none
  case fresh => exact List.forall_mem_singleton.mpr fresh

end

theorem get?_of_not_contains {full : String} {names : List (String × Schema)}
    (absent : ¬Keyed.contains full names = true) : Keyed.get? full names = none := by
  rwa [Keyed.contains, Option.not_isSome_iff_eq_none] at absent

theorem register_declaring {full : String} {schema : Schema} (named : schema.IsNamed)
    (name : schema.typeName = full) (noRecord : schema.isRecord = false) :
    Declaring (register full schema) [⟨full, false⟩] := by
  intro v consistent
  unfold register
  refine Ends.get ?_
  dsimp only
  split
  · exact Ends.refuse_bind (Adds.refl consistent)
  · rename_i absent
    rw [← noRecord]
    refine declares_put (get?_of_not_contains absent) named name ⟨id, id⟩ ?_ consistent
    rintro r rfl
    cases noRecord

theorem registerRecord_declaring {full name : String} {scope doc : Option String}
    (same : qualified scope name = full) :
    Declaring (registerRecord full name scope doc) [⟨full, true⟩] := by
  intro v consistent
  unfold registerRecord
  refine Ends.get ?_
  dsimp only
  split
  · exact Ends.refuse_bind (Adds.refl consistent)
  · rename_i absent
    have named : (Schema.record (v.catalog.declare name scope doc).1).IsNamed := trivial
    refine declares_put (get?_of_not_contains absent) named same (v.catalog.declare_extends name scope doc) ?_
      consistent
    rintro r ⟨⟩
    exact ⟨⟨name, scope, doc, none⟩, List.getElem?_concat_length, ⟨rfl, rfl⟩, rfl⟩

/-! ### Definitions -/

/-- A definition is declared under the name that it has by its syntax. -/
theorem definitionName_declaring {head : Node.Head} {enclosing : Option String} {α : Type}
    {rest : Option String × String × String → Parsing α}
    (declaring : ∀ scope name full, head.names enclosing = (scope, name, full) → qualified scope name = full →
      Declaring (rest (scope, name, full)) definitions) :
    Declaring (definitionName head enclosing >>= rest) definitions := by
  intro v consistent
  refine definitionName_checks.bind (Adds.refl consistent) ?_
  rintro ⟨scope, name, full⟩ ⟨names, _, same⟩
  exact declaring scope name full names same v consistent

theorem enumType_ok {name : String} {scope : Option String} {symbols : List String} {e : EnumType}
    (made : EnumType.new name scope symbols = .ok e) :
    e = ⟨name, scope, symbols⟩ ∧ symbols ≠ [] ∧ symbols.Nodup := by
  unfold EnumType.new at made
  dsimp only at made
  split at made
  · cases made
  · rename_i nonempty
    split at made
    · cases made
    · rename_i none
      cases made
      exact ⟨rfl, fun empty => nonempty (empty ▸ rfl), (EnumType.new.firstRepeated_none none).1⟩

theorem declareEnum_declaring {head : Node.Head} {enclosing : Option String}
    {symbols : Option (List (Option String))} :
    Declaring (declareEnum head enclosing symbols) [head.definition enclosing false] := by
  refine definitionName_declaring fun scope name full names same v consistent => ?_
  rw [Node.Head.definition, names]
  refine Checks.require.bind (Adds.refl consistent) fun symbols _ => ?_
  refine validSymbols_checks.bind (Adds.refl consistent) fun symbols _ => ?_
  cases made : EnumType.new name scope symbols with
  | error e => exact Ends.throw (Adds.refl consistent)
  | ok e =>
    obtain ⟨rfl, _, _⟩ := enumType_ok made
    have named : (Schema.enum ⟨name, scope, symbols⟩).IsNamed := trivial
    exact register_declaring named same rfl v consistent

theorem declareFixed_declaring {head : Node.Head} {enclosing : Option String} {size : Option Nat} :
    Declaring (declareFixed head enclosing size) [head.definition enclosing false] := by
  refine definitionName_declaring fun scope name full names same v consistent => ?_
  rw [Node.Head.definition, names]
  refine Checks.require.bind (Adds.refl consistent) fun size _ => ?_
  have named : (Schema.fixed ⟨name, scope, size⟩).IsNamed := trivial
  exact register_declaring named same rfl v consistent

/-! ### Nodes -/

theorem declareAll_declaring {enclosing : Option String} {nodes : List Node}
    (each : ∀ node ∈ nodes, Declaring (declare enclosing node) (node.definitions enclosing)) :
    Declaring (declareAll enclosing nodes) (Node.definitionsAll enclosing nodes) := by
  induction nodes with
  | nil => exact Declaring.nothing
  | cons node rest ih =>
    rw [List.forall_mem_cons] at each
    rw [declareAll, Node.definitionsAll]
    exact each.1.append (ih each.2)

theorem declareFields_declaring {enclosing : Option String} {fields : List Node.Field}
    (each : ∀ field ∈ fields, ∀ type, field.type = some type →
      Declaring (declare enclosing type) (type.definitions enclosing)) :
    Declaring (declareFields enclosing fields) (Node.definitionsIn enclosing fields) := by
  induction fields with
  | nil => exact Declaring.nothing
  | cons field rest ih =>
    rw [List.forall_mem_cons] at each
    obtain ⟨isObject, name, type⟩ := field
    cases type with
    | none =>
      rw [declareFields, Node.definitionsIn]
      · exact ih each.2
      all_goals exact nofun
    | some type =>
      rw [declareFields, Node.definitionsIn]
      exact (each.1 type rfl).append (ih each.2)

theorem declare_declaring (enclosing : Option String) (node : Node) :
    Declaring (declare enclosing node) (node.definitions enclosing) := by
  induction node using Node.induction generalizing enclosing with
  | union branches ih =>
    rw [declare, Node.definitions]
    exact declareAll_declaring fun node member => ih node member enclosing
  | wrapped inner ih =>
    rw [declare, Node.definitions]
    exact ih enclosing
  | record head doc fields ih =>
    rw [declare]
    cases fields with
    | none =>
      rw [Node.definitions]
      refine definitionName_declaring fun scope name full names same => ?_
      rw [Node.Head.definition, names]
      exact (registerRecord_declaring same).append Declaring.refuse
    | some fields =>
      rw [Node.definitions]
      refine definitionName_declaring fun scope name full names same => ?_
      rw [Node.Head.definition, names]
      refine (registerRecord_declaring same).append (declareFields_declaring ?_)
      exact fun field member type given => ih fields rfl field member type given scope
  | enum head symbols =>
    rw [declare, Node.definitions]
    exact declareEnum_declaring
  | fixed head size =>
    rw [declare, Node.definitions]
    exact declareFixed_declaring
  | array items ih =>
    cases items with
    | none => exact Declaring.nothing
    | some items =>
      rw [declare, Node.definitions]
      exact ih items rfl enclosing
  | map values ih =>
    cases values with
    | none => exact Declaring.nothing
    | some values =>
      rw [declare, Node.definitions]
      exact ih values rfl enclosing
  | name | foreign | untyped | tagged => exact Declaring.nothing

end Vocabulary

end TrackedRecord
