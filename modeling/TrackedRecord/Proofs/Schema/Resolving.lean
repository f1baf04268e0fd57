import TrackedRecord.Proofs.Schema.Declaring

/-!
# The second pass

Resolving a declared node gives each record that is defined in it its fields, and leaves all else as it
was. The schemas that come of it mention types that are known.
-/

namespace TrackedRecord.Schema.Bound

variable {names : List (String × Schema)}

theorem primitive (kind : Primitive) : (Schema.primitive kind).Bound names :=
  ⟨trivial, by rw [mentioned]; exact List.forall_mem_nil _⟩

theorem array {element : Schema} (bound : element.Bound names) : (Schema.array element).Bound names :=
  ⟨bound.flat, by rw [mentioned]; exact bound.known⟩

theorem map {value : Schema} (bound : value.Bound names) : (Schema.map value).Bound names :=
  ⟨bound.flat, by rw [mentioned]; exact bound.known⟩

theorem union {branches : List Schema}
    (each : ∀ branch ∈ branches, branch.isUnion = false ∧ branch.Bound names) :
    (Schema.union branches).Bound names where
  flat := flat_union.mpr fun branch member => ⟨(each branch member).1, (each branch member).2.flat⟩
  known type member := by
    obtain ⟨branch, present, mentioned⟩ := mem_mentioned_union.mp member
    exact (each branch present).2.known type mentioned

end TrackedRecord.Schema.Bound

namespace TrackedRecord.Vocabulary

variable {v v₁ v' : Vocabulary} {definitions more : List Node.Definition}

/-- Nothing has changed but the fields of records among the definitions. -/
structure Fills (definitions : List Node.Definition) (v v' : Vocabulary) : Prop where
  consistent : v'.Consistent
  named : v'.named = v.named
  fields : ∀ {full r}, Keyed.get? full v.named = some (.record r) →
    full ∉ definitions.map Node.Definition.fullName → v'.catalog.fields? r = v.catalog.fields? r

/-- All records among the definitions have their fields. -/
structure Resolves (definitions : List Node.Definition) (v v' : Vocabulary) : Prop
    extends Fills definitions v v' where
  defined : ∀ d ∈ definitions, ∀ r, Keyed.get? d.fullName v.named = some (.record r) →
    (v'.catalog.fields? r).isSome

theorem Pending.of_append (pending : Pending (definitions ++ more) v) :
    Pending definitions v ∧ Pending more v := by
  have distinct := pending.distinct
  rw [List.map_append, List.nodup_append] at distinct
  have known := pending.known
  rw [List.forall_mem_append] at known
  exact ⟨⟨distinct.1, known.1⟩, ⟨distinct.2.1, known.2⟩⟩

theorem Pending.disjoint (pending : Pending (definitions ++ more) v) {full : String}
    (member : full ∈ definitions.map Node.Definition.fullName) :
    full ∉ more.map Node.Definition.fullName := by
  have distinct := pending.distinct
  rw [List.map_append, List.nodup_append] at distinct
  exact fun later => distinct.2.2 full member full later rfl

namespace Fills

theorem refl (consistent : v.Consistent) : Fills definitions v v := ⟨consistent, rfl, fun _ _ => rfl⟩

theorem trans (first : Fills definitions v v₁) (second : Fills definitions v₁ v') : Fills definitions v v' where
  consistent := second.consistent
  named := second.named.trans first.named
  fields known other := (second.fields (first.named ▸ known) other).trans (first.fields known other)

theorem weaken (fills : Fills definitions v v') (subset : ∀ d ∈ definitions, d ∈ more) : Fills more v v' where
  consistent := fills.consistent
  named := fills.named
  fields known other := fills.fields known fun member =>
    let ⟨d, present, same⟩ := List.mem_map.mp member
    other (List.mem_map.mpr ⟨d, subset d present, same⟩)

/-- Definitions that are not among those with new fields are pending as before. -/
theorem pending (fills : Fills definitions v v') (pending : Pending (definitions ++ more) v) :
    Pending more v' where
  distinct := pending.of_append.2.distinct
  known d member := by
    obtain ⟨schema, known, kind, waiting⟩ := pending.of_append.2.known d member
    refine ⟨schema, fills.named ▸ known, kind, ?_⟩
    rintro r rfl
    have other : d.fullName ∉ definitions.map Node.Definition.fullName := fun early =>
      pending.disjoint early (List.mem_map.mpr ⟨d, member, rfl⟩)
    exact (fills.fields known other).trans (waiting r rfl)

end Fills

theorem Resolves.append (first : Resolves definitions v v₁) (second : Resolves more v₁ v')
    (pending : Pending (definitions ++ more) v) : Resolves (definitions ++ more) v v' where
  toFills := by
    refine (first.toFills.weaken ?_).trans (second.toFills.weaken ?_)
    · exact fun d member => List.mem_append_left _ member
    · exact fun d member => List.mem_append_right _ member
  defined d member r known := by
    rw [← first.named] at known
    rcases List.mem_append.mp member with early | late
    · have other := pending.disjoint (List.mem_map.mpr ⟨d, early, rfl⟩)
      rw [second.fields known other]
      exact first.defined d early r (first.named ▸ known)
    · exact second.defined d late r known

/-- From `v` on, the computation resolves the definitions with a result of which `result` holds, or fails
after it has resolved some of them. -/
def Resolving {α : Type} (v : Vocabulary) (p : Parsing α) (definitions : List Node.Definition)
    (result : α → Prop) : Prop :=
  v.Consistent → Pending definitions v →
    Ends p v (fun a v' => Resolves definitions v v' ∧ result a) fun v' => Fills definitions v v'

namespace Resolving

variable {α β : Type} {p : Parsing α} {result : α → Prop} {result' : β → Prop}

theorem nothing {a : α} (holds : result a) : Resolving v (pure a) [] result :=
  fun consistent _ => Ends.pure ⟨⟨Fills.refl consistent, fun _ member => nomatch member⟩, holds⟩

theorem refuse {node : String} {cause : SchemaError.Cause} :
    Resolving v (Vocabulary.refuse node cause) definitions result :=
  fun consistent _ => Ends.refuse (Fills.refl consistent)

theorem append {f : α → Parsing β} (first : Resolving v p definitions result)
    (second : ∀ a v₁, v₁.named = v.named → result a → Resolving v₁ (f a) more result') :
    Resolving v (p >>= f) (definitions ++ more) result' := by
  intro consistent pending
  have early (v' : Vocabulary) (fills : Fills definitions v v') : Fills (definitions ++ more) v v' :=
    fills.weaken fun d member => List.mem_append_left _ member
  refine Ends.bind ((first consistent pending.of_append.1).mono (fun _ _ holds => holds) early) ?_
  rintro a v₁ ⟨resolves, holds⟩
  refine (second a v₁ resolves.named holds resolves.consistent (resolves.pending pending)).mono ?_ ?_
  · exact fun _ _ ⟨later, last⟩ => ⟨resolves.append later pending, last⟩
  · exact fun v' fills => (early v₁ resolves.toFills).trans
      (fills.weaken fun d member => List.mem_append_right _ member)

theorem map {g : α → β} (inner : Resolving v p definitions result)
    (holds : ∀ a, result a → result' (g a)) :
    Resolving v (do let a ← p; return g a) definitions result' := by
  have whole : Resolving v (p >>= fun a => pure (g a)) (definitions ++ []) result' :=
    inner.append fun a _ _ result => Resolving.nothing (holds a result)
  rwa [List.append_nil] at whole

theorem check {found : α → Prop} {f : α → Parsing β} (first : Checks p v found)
    (rest : ∀ a, found a → Resolving v (f a) definitions result') :
    Resolving v (p >>= f) definitions result' :=
  fun consistent pending => first.bind (Fills.refl consistent) fun a holds => rest a holds consistent pending

/-- The order of definitions does not count. -/
theorem perm (inner : Resolving v p definitions result) (same : definitions.Perm more) :
    Resolving v p more result := by
  intro consistent pending
  have members (d : Node.Definition) : d ∈ definitions ↔ d ∈ more := same.mem_iff
  have pendingInner : Pending definitions v :=
    ⟨(same.map _).nodup_iff.mpr pending.distinct, fun d member => pending.known d ((members d).mp member)⟩
  have weaken (v' : Vocabulary) (fills : Fills definitions v v') : Fills more v v' :=
    fills.weaken fun d member => (members d).mp member
  refine (inner consistent pendingInner).mono ?_ weaken
  rintro a v' ⟨resolves, holds⟩
  exact ⟨⟨weaken v' resolves.toFills, fun d member => resolves.defined d ((members d).mpr member)⟩, holds⟩

end Resolving

/-! ### Names -/

theorem Consistent.bound_of_get? (consistent : v.Consistent) {full : String} {schema : Schema}
    (known : Keyed.get? full v.named = some schema) : schema.Bound v.named := by
  obtain ⟨named, name⟩ := consistent.named known
  refine ⟨named.flat, ?_⟩
  rw [named.mentioned]
  exact List.forall_mem_singleton.mpr (name ▸ known)

/-- A name without a point is looked for in the namespace and then as it is. -/
theorem lookup?_bare (v : Vocabulary) (reference : String) (bare : reference.contains '.' = false)
    (scope : Option String) :
    v.lookup? reference scope = (scope.bind fun scope => Keyed.get? (fullName (some scope) reference) v.named).or
      (Keyed.get? reference v.named) := by
  rw [lookup?, if_neg]
  rw [bare]
  exact Bool.false_ne_true

/-- What a reference finds is known under its own name. -/
theorem get?_of_lookup? {reference : String} {scope : Option String} {schema : Schema}
    (found : v.lookup? reference scope = some schema) : ∃ full, Keyed.get? full v.named = some schema := by
  unfold lookup? at found
  dsimp only at found
  rcases Option.or_eq_some_iff.mp found with near | ⟨_, far⟩
  · split at near
    · cases near
    · obtain ⟨inside, _, known⟩ := Option.bind_eq_some_iff.mp near
      exact ⟨_, known⟩
  · exact ⟨_, far⟩

/-- A name stands for a primitive type or for a type that is known. -/
theorem resolveName_checks {scope : Option String} {name context : String} {cause : SchemaError.Cause} :
    Checks (do let found ← resolveName scope name; require context cause found) v fun schema =>
      (∃ kind, schema = .primitive kind) ∨ ∃ full, Keyed.get? full v.named = some schema := by
  unfold resolveName
  cases Primitive.ofName? name with
  | some kind => exact Checks.pure (Or.inl ⟨kind, rfl⟩)
  | none =>
    refine Ends.get ?_
    refine Checks.require.mono ?_ fun _ same => same
    rintro schema _ ⟨rfl, found⟩
    exact ⟨rfl, Or.inr (get?_of_lookup? found)⟩

theorem declared_checks {head : Node.Head} {enclosing : Option String} {context : String} :
    Checks (declared head enclosing context) v fun found =>
      ∃ name, head.names enclosing = (found.2.1, name, found.2.2) ∧
        Keyed.get? found.2.2 v.named = some found.1 := by
  unfold declared Node.Head.names
  refine Checks.require.andThen fun raw given => ?_
  rw [given]
  exact Checks.require.andThen fun schema known => Checks.pure ⟨_, rfl, known⟩

theorem addBranch_checks {context : String} {before : List Schema} {branch : Schema} :
    Checks (addBranch context before branch) v fun branches =>
      branches = branch :: before ∧ branch.isUnion = false ∧
        ∀ other ∈ before, other.typeName ≠ branch.typeName := by
  unfold addBranch
  dsimp only
  split
  · exact Ends.refuse_bind rfl
  · rename_i noUnion
    split
    · exact Ends.refuse_bind rfl
    · rename_i distinct
      refine Checks.pure ⟨rfl, Bool.of_not_eq_true noUnion, ?_⟩
      simpa using distinct

/-! ### Fields of records -/

theorem Consistent.eq_of_place (consistent : v.Consistent) {full full' : String} {r r' : RecordRef}
    (known : Keyed.get? full v.named = some (.record r)) (known' : Keyed.get? full' v.named = some (.record r'))
    (same : r.place = r'.place) : full = full' := by
  obtain ⟨type, found, name, scope⟩ := consistent.placed known
  obtain ⟨type', found', name', scope'⟩ := consistent.placed known'
  rw [Catalog.record?, same] at found
  obtain rfl := Option.some.inj (found.symm.trans found')
  have equal : r = r' := by
    cases r
    cases r'
    simp_all
  rw [← (consistent.named known).2, ← (consistent.named known').2, equal]

/-- A pending record gets fields that mention known types. -/
theorem resolves_define {full : String} {r : RecordRef} {fields : List FieldType} {catalog : Catalog}
    (consistent : v.Consistent) (known : Keyed.get? full v.named = some (.record r))
    (bound : ∀ field ∈ fields, field.schema.Bound v.named) (defined : v.catalog.define r fields = .ok catalog) :
    Resolves [⟨full, true⟩] v { v with catalog } := by
  have record := Catalog.define_ok defined
  constructor
  case toFills =>
    refine ⟨⟨consistent.named, ?placed, ?bound⟩, rfl, ?fields⟩
    case placed =>
      intro other r' known'
      obtain ⟨type, found, same⟩ := consistent.placed known'
      refine ⟨_, (record r').trans (congrArg _ found), ?_⟩
      dsimp only
      split <;> exact same
    case bound =>
      intro r' fields' known' field member
      rcases Catalog.define_fields defined known' with rfl | same
      · exact bound field member
      · exact consistent.bound same field member
    case fields =>
      intro other r' known' different
      have elsewhere : r.place ≠ r'.place := fun same =>
        different (List.mem_singleton.mpr (consistent.eq_of_place known' known same.symm))
      rw [Catalog.fields?, record, Catalog.fields?]
      simp only [if_neg elsewhere, Option.map_id']
  case defined =>
    refine List.forall_mem_singleton.mpr fun r' known' => ?_
    have same := known.symm.trans known'
    obtain rfl := Schema.record.inj (Option.some.inj same)
    obtain ⟨type, found, _⟩ := consistent.placed known
    rw [Catalog.fields?, record, found, Option.map_some, if_pos rfl, Option.bind_some, RecordType.types?_numbered]
    rfl

/-! ### Nodes -/

/-- The node is resolved, wherever it stands, to a schema that mentions known types. -/
def Resolvable (node : Node) : Prop :=
  ∀ (v : Vocabulary) (scope : Option String) (context : String),
    Resolving v (resolve scope context node) (node.definitions scope) fun schema => schema.Bound v.named

theorem resolveBranches_resolving {scope : Option String} {context : String} {nodes : List Node}
    (each : ∀ node ∈ nodes, Resolvable node) {before : List Schema}
    (bound : ∀ branch ∈ before, branch.isUnion = false ∧ branch.Bound v.named) :
    Resolving v (resolveBranches scope context before nodes) (Node.definitionsAll scope nodes)
      fun schema => schema.Bound v.named := by
  induction nodes generalizing v before with
  | nil => exact Resolving.nothing (.union fun branch member => bound branch (List.mem_reverse.mp member))
  | cons node rest ih =>
    rw [List.forall_mem_cons] at each
    rw [resolveBranches, Node.definitionsAll]
    refine (each.1 v scope context).append fun branch v₁ same found => ?_
    refine Resolving.check addBranch_checks ?_
    rintro _ ⟨rfl, noUnion, _⟩
    rw [← same] at found bound ⊢
    exact ih each.2 (List.forall_mem_cons.mpr ⟨⟨noUnion, found⟩, bound⟩)

theorem resolveFields_resolving {scope : Option String} {full : String} {fields : List Node.Field}
    (each : ∀ field ∈ fields, ∀ type, field.type = some type → Resolvable type) :
    Resolving v (resolveFields scope full fields) (Node.definitionsIn scope fields)
      fun fields => ∀ field ∈ fields, field.schema.Bound v.named := by
  induction fields generalizing v with
  | nil => exact Resolving.nothing (List.forall_mem_nil _)
  | cons field rest ih =>
    rw [List.forall_mem_cons] at each
    obtain ⟨isObject, name, type⟩ := field
    rw [resolveFields]
    split
    · refine Resolving.check Checks.require fun name _ => ?_
      refine Resolving.check validateName_checks fun _ _ => ?_
      cases type with
      | none => exact Resolving.refuse
      | some type =>
        rw [Node.definitionsIn]
        refine (each.1 type rfl v scope _).append fun schema v₁ same found => ?_
        rw [← same] at found ⊢
        exact (ih each.2).map fun rest others => List.forall_mem_cons.mpr ⟨found, others⟩
    · exact Resolving.refuse

theorem define_resolving {full : String} {r : RecordRef} {fields : List FieldType} {schema : Schema}
    (known : Keyed.get? full v.named = some (.record r)) (bound : ∀ field ∈ fields, field.schema.Bound v.named)
    (holds : schema.Bound v.named) :
    Resolving v
      (do
        let v ← get
        match v.catalog.define r fields with
        | .ok catalog => set { v with catalog }
        | .error e => throw e
        return schema)
      [⟨full, true⟩] fun schema => schema.Bound v.named := by
  intro consistent _
  refine Ends.get ?_
  cases defined : v.catalog.define r fields with
  | error e => exact Ends.throw_bind (Fills.refl consistent)
  | ok catalog => exact ⟨resolves_define consistent known bound defined, holds⟩

theorem resolveName_resolving {scope : Option String} {name context : String} {cause : SchemaError.Cause} :
    Resolving v (do let found ← resolveName scope name; require context cause found) []
      fun schema => schema.Bound v.named := by
  intro consistent pending
  refine resolveName_checks.mono ?_ ?_
  · rintro schema _ ⟨rfl, ⟨kind, rfl⟩ | ⟨full, known⟩⟩
    · exact ⟨⟨Fills.refl consistent, fun _ member => nomatch member⟩, .primitive kind⟩
    · exact ⟨⟨Fills.refl consistent, fun _ member => nomatch member⟩, consistent.bound_of_get? known⟩
  · rintro _ rfl
    exact Fills.refl consistent

/-- A definition without fields of its own needs no more than its name. -/
theorem declared_resolving {head : Node.Head} {scope : Option String} {context : String} :
    Resolving v (do let (schema, _, _) ← declared head scope context; return schema)
      [head.definition scope false] fun schema => schema.Bound v.named := by
  intro consistent pending
  refine declared_checks.bind (Fills.refl consistent) ?_
  rintro ⟨schema, inner, full⟩ ⟨name, names, known⟩
  refine Ends.pure ⟨⟨Fills.refl consistent, ?_⟩, consistent.bound_of_get? known⟩
  refine List.forall_mem_singleton.mpr fun r record => ?_
  obtain ⟨schema', known', kind, _⟩ := pending.known _ List.mem_cons_self
  obtain rfl := Option.some.inj (known'.symm.trans record)
  cases kind

/-- A declared record has no fields yet, or those of its definition would never be resolved. -/
theorem Pending.undefined (pending : Pending definitions v) {full : String} {schema : Schema}
    (member : ⟨full, true⟩ ∈ definitions) (known : Keyed.get? full v.named = some schema) :
    ∃ r, schema = .record r ∧ v.catalog.isDefined r = false := by
  obtain ⟨schema', known', kind, waiting⟩ := pending.known _ member
  obtain rfl := Option.some.inj (known.symm.trans known')
  cases schema with
  | record r => exact ⟨r, rfl, by rw [Catalog.isDefined, waiting r rfl]; rfl⟩
  | _ => cases kind

theorem resolveRecord_resolving {head : Node.Head} {doc : Option String} {fields : Option (List Node.Field)}
    {scope : Option String} {context : String}
    (each : ∀ entries, fields = some entries → ∀ entry ∈ entries, ∀ type, entry.type = some type →
      Resolvable type) :
    Resolving v (resolve scope context (.record head doc fields))
      (Node.definitions scope (.record head doc fields)) fun schema => schema.Bound v.named := by
  intro consistent pending
  rw [resolve]
  refine declared_checks.bind (Fills.refl consistent) ?_
  rintro ⟨schema, inner, full⟩ ⟨name, names, known⟩
  have definition : head.definition scope true = ⟨full, true⟩ := by rw [Node.Head.definition, names]
  have member : ⟨full, true⟩ ∈ Node.definitions scope (.record head doc fields) := by
    cases fields <;> exact definition ▸ List.mem_cons_self
  obtain ⟨r, rfl, undefined⟩ := pending.undefined member known
  refine Ends.get ?_
  dsimp only
  rw [undefined, if_neg Bool.false_ne_true]
  have holds := consistent.bound_of_get? known
  cases fields with
  | none =>
    rw [Node.definitions, definition] at pending ⊢
    exact define_resolving known (List.forall_mem_nil _) holds consistent pending
  | some entries =>
    rw [Node.definitions, definition, names] at pending ⊢
    have order (d : Node.Definition) (nested : List Node.Definition) : (nested ++ [d]).Perm (d :: nested) :=
      List.perm_append_comm
    refine ((resolveFields_resolving (each entries rfl)).append fun fields v₁ same bound => ?_).perm
      (order _ _) consistent pending
    rw [← same] at known bound holds ⊢
    exact define_resolving known bound holds

theorem resolve_resolvable (node : Node) : Resolvable node := by
  induction node using Node.induction with
  | name name =>
    intro v scope context
    rw [resolve]
    exact resolveName_resolving
  | union branches ih =>
    intro v scope context
    rw [resolve, Node.definitions]
    split
    · exact Resolving.refuse
    · exact resolveBranches_resolving ih (List.forall_mem_nil _)
  | foreign json =>
    intro v scope context
    rw [resolve]
    exact Resolving.refuse
  | untyped =>
    intro v scope context
    rw [resolve]
    exact Resolving.refuse
  | wrapped inner ih =>
    intro v scope context
    rw [resolve, Node.definitions]
    exact ih v scope context
  | record head doc fields ih => exact fun v scope context => resolveRecord_resolving ih
  | enum head symbols =>
    intro v scope context
    rw [resolve, Node.definitions]
    exact declared_resolving
  | fixed head size =>
    intro v scope context
    rw [resolve, Node.definitions]
    exact declared_resolving
  | array items ih =>
    intro v scope context
    cases items with
    | none =>
      rw [resolve]
      exact Resolving.refuse
    | some items =>
      rw [resolve, Node.definitions]
      exact (ih items rfl v scope context).map fun _ => .array
  | map values ih =>
    intro v scope context
    cases values with
    | none =>
      rw [resolve]
      exact Resolving.refuse
    | some values =>
      rw [resolve, Node.definitions]
      exact (ih values rfl v scope context).map fun _ => .map
  | tagged tag =>
    intro v scope context
    rw [resolve]
    exact resolveName_resolving

end TrackedRecord.Vocabulary
