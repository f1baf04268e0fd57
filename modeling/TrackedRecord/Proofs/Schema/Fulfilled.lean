import TrackedRecord.Proofs.Schema.Introduced
import TrackedRecord.Proofs.Schema.Regular

/-!
# What the second pass gives

Resolving a declared node gives its meaning among all the names that are known by then, and it gives each
record that is defined in the node the fields that its definition means. It fails if there is no such meaning.
-/

namespace TrackedRecord

namespace Vocabulary

open Node (Site)

variable {α β : Type} {v v₁ v' : Vocabulary} {sites more : List Site}

/-- The records among the definitions have the fields that they mean, and nothing else has changed. -/
structure Fulfils (sites : List Site) (v v' : Vocabulary) : Prop
    extends Resolves (sites.map Site.definition) v v' where
  fieldTypes : ∀ site ∈ sites, ∀ r, Keyed.get? site.fullName v.named = some (.record r) →
    v'.catalog.fields? r = site.fieldTypes? v.named?
  sameDocs : SameDocs v v'

theorem Resolves.nil (consistent : v.Consistent) : Resolves [] v v :=
  ⟨Fills.refl consistent, List.forall_mem_nil _⟩

namespace Fulfils

theorem nil (consistent : v.Consistent) : Fulfils [] v v :=
  ⟨.nil consistent, List.forall_mem_nil _, fun _ => rfl⟩

theorem append (first : Fulfils sites v v₁) (second : Fulfils more v₁ v')
    (pending : Pending ((sites ++ more).map Site.definition) v) : Fulfils (sites ++ more) v v' where
  toResolves := by
    rw [List.map_append] at pending ⊢
    exact first.toResolves.append second.toResolves pending
  fieldTypes := by
    rw [List.forall_mem_append]
    constructor
    · intro site member r known
      rw [List.map_append] at pending
      have other := pending.disjoint (List.mem_map.mpr ⟨_, List.mem_map_of_mem member, rfl⟩)
      exact (second.fields (first.named ▸ known) other).trans (first.fieldTypes site member r known)
    · intro site member r known
      have same : v₁.named? = v.named? := funext fun full => congrArg (Keyed.get? full) first.named
      rw [second.fieldTypes site member r (first.named ▸ known), same]
  sameDocs known := (second.sameDocs (first.named ▸ known)).trans (first.sameDocs known)

theorem perm (fulfils : Fulfils sites v v') (same : sites.Perm more) : Fulfils more v v' where
  toResolves := by
    have members (d : Node.Definition) : d ∈ sites.map Site.definition ↔ d ∈ more.map Site.definition :=
      (same.map _).mem_iff
    exact ⟨fulfils.toFills.weaken fun d member => (members d).mp member,
      fun d member => fulfils.defined d ((members d).mpr member)⟩
  fieldTypes site member := fulfils.fieldTypes site (same.mem_iff.mpr member)
  sameDocs := fulfils.sameDocs

end Fulfils

/-- From `v` on, where the definitions are declared, the computation gives the answer and the records their
fields, or it fails if there is no answer. -/
def Means (v : Vocabulary) (p : Parsing α) (sites : List Site) (answer : Option α) : Prop :=
  v.Consistent → Pending (sites.map Site.definition) v →
    Ends p v (fun a v' => Fulfils sites v v' ∧ answer = some a) fun _ => answer = none

namespace Means

variable {p : Parsing α} {f : α → Parsing β} {answer : Option α} {last : Option β}

theorem pure {a : α} : Means v (pure a) [] (some a) := fun consistent _ => Ends.pure ⟨.nil consistent, rfl⟩

theorem refuse {node : String} {cause : SchemaError.Cause} : Means v (refuse (α := α) node cause) sites none :=
  fun _ _ => Ends.refuse rfl

theorem of_decides (decides : Decides p v answer) : Means v p [] answer := by
  intro consistent _
  refine decides.mono ?_ fun _ none => none
  rintro a _ ⟨rfl, given⟩
  exact ⟨.nil consistent, given⟩

theorem decide (first : Decides p v answer) (error : answer = none → last = none)
    (rest : ∀ a, answer = some a → Means v (f a) sites last) : Means v (p >>= f) sites last :=
  fun consistent pending => first.bind (fun none _ => error none) fun a given => rest a given consistent pending

/-- More may be known of the first result than that it is the answer. -/
theorem appendWith (result : α → Prop) (first : Means v p sites answer)
    (holds : v.Consistent → Pending (sites.map Site.definition) v → Ends p v (fun a _ => result a) fun _ => True)
    (error : answer = none → last = none)
    (second : ∀ a v₁, v₁.named = v.named → answer = some a → result a → Means v₁ (f a) more last) :
    Means v (p >>= f) (sites ++ more) last := by
  intro consistent pending
  have parts := pending
  rw [List.map_append] at parts
  refine Ends.bind (((first consistent parts.of_append.1).and (holds consistent parts.of_append.1)).mono
    (fun _ _ both => both) fun _ both => error both.1) ?_
  rintro a v₁ ⟨⟨fulfils, given⟩, known⟩
  refine (second a v₁ fulfils.named given known fulfils.consistent (fulfils.toResolves.pending parts)).mono ?_
    fun _ none => none
  exact fun b v' ⟨later, meant⟩ => ⟨fulfils.append later pending, meant⟩

theorem append (first : Means v p sites answer) (error : answer = none → last = none)
    (second : ∀ a v₁, v₁.named = v.named → answer = some a → Means v₁ (f a) more last) :
    Means v (p >>= f) (sites ++ more) last :=
  first.appendWith (fun _ => True) (fun _ _ => Ends.always fun _ => trivial) error
    fun a v₁ same given _ => second a v₁ same given

theorem map {g : α → β} (inner : Means v p sites answer) :
    Means v (do let a ← p; return g a) sites (answer.map g) := by
  have whole : Means v (p >>= fun a => Pure.pure (g a)) (sites ++ []) (answer.map g) := by
    refine inner.append (fun none => none ▸ rfl) fun a _ _ given => ?_
    rw [given]
    exact pure
  rwa [List.append_nil] at whole

theorem perm (inner : Means v p sites answer) (same : sites.Perm more) : Means v p more answer := by
  intro consistent pending
  have members (d : Node.Definition) : d ∈ sites.map Site.definition ↔ d ∈ more.map Site.definition :=
    (same.map _).mem_iff
  refine (inner consistent ⟨?_, ?_⟩).mono ?_ fun _ none => none
  · exact ((same.map _).map _).nodup_iff.mpr pending.distinct
  · exact fun d member => pending.known d ((members d).mp member)
  · exact fun a v' ⟨fulfils, given⟩ => ⟨fulfils.perm same, given⟩

end Means

/-! ### Names -/

theorem lookup?_eq (v : Vocabulary) (reference : String) (scope : Option String) :
    v.lookup? reference scope = if reference.contains '.' then v.named? reference
      else (scope.bind fun scope => v.named? (scope ++ "." ++ reference)).or (v.named? reference) := by
  unfold lookup?
  dsimp only
  split
  · exact Option.none_or
  · rfl

theorem resolveName_decides {scope : Option String} {reference context : String} {cause : SchemaError.Cause} :
    Decides (do let found ← resolveName scope reference; require context cause found) v
      (Node.refer v.named? scope reference) := by
  unfold resolveName Node.refer
  cases Primitive.ofName? reference with
  | some kind => exact Decides.pure
  | none =>
    rw [← lookup?_eq]
    exact Decides.require

theorem declared_decides {head : Node.Head} {enclosing : Option String} {context : String} :
    Decides (declared head enclosing context) v ((head.type? v.named? enclosing).map fun schema =>
      (schema, (head.names enclosing).1, (head.names enclosing).2.2)) := by
  unfold declared Node.Head.type? Node.Head.names
  rw [Option.map_bind]
  refine Decides.require.andThen fun raw given => ?_
  rw [given, Option.getD_some]
  generalize splitName raw head.scope enclosing = names
  obtain ⟨scope, name⟩ := names
  dsimp only [Function.comp]
  rw [Option.map_eq_bind]
  refine Ends.get ?_
  exact Decides.require.andThen fun schema _ => Decides.pure

theorem addBranch_decides {context : String} {before : List Schema} {branch : Schema} :
    Decides (addBranch context before branch) v
      (if branch.isUnion = false ∧ ∀ other ∈ before, other.typeName ≠ branch.typeName then some (branch :: before)
        else none) := by
  unfold addBranch
  cases nested : branch.isUnion with
  | true => exact Decides.refuse
  | false =>
    dsimp only
    rw [if_neg Bool.false_ne_true]
    cases again : before.any fun other => other.typeName == branch.typeName with
    | true =>
      rw [if_pos rfl, if_neg]
      · exact Decides.refuse
      · simpa using again
    | false =>
      rw [if_neg Bool.false_ne_true, if_pos]
      · exact Decides.pure
      · simpa using again

/-! ### Nodes -/

/-- The node is resolved to its meaning, wherever it stands. -/
def Meant (node : Node) : Prop :=
  ∀ (v : Vocabulary) (scope : Option String) (context : String),
    Means v (resolve scope context node) (node.sites scope) (node.meaning v.named? scope)

theorem named?_congr (same : v₁.named = v.named) : v₁.named? = v.named? :=
  funext fun full => congrArg (Keyed.get? full) same

/-- A branch that is a union or has the name of an earlier one spoils the union. -/
theorem unionOf?_spoiled {before types : List Schema} {branch : Schema}
    (spoils : ¬(branch.isUnion = false ∧ ∀ other ∈ before, other.typeName ≠ branch.typeName)) :
    Schema.unionOf? (before.reverse ++ branch :: types) = none := by
  rw [Schema.unionOf?, if_neg]
  rintro ⟨_, flat, labels⟩
  rw [List.map_append, List.nodup_append] at labels
  refine spoils ⟨flat branch (by simp), fun other member => ?_⟩
  refine labels.2.2 _ (List.mem_map_of_mem (List.mem_reverse.mpr member)) _ ?_
  rw [List.map_cons]
  exact List.mem_cons_self

theorem resolveBranches_means {scope : Option String} {context : String} {nodes : List Node}
    (each : ∀ node ∈ nodes, Meant node) {before : List Schema} (nonempty : before ≠ [] ∨ nodes ≠ [])
    (flat : ∀ branch ∈ before, branch.isUnion = false) (labels : (before.map Schema.typeName).Nodup) :
    Means v (resolveBranches scope context before nodes) (Node.sitesAll scope nodes)
      ((Node.meaningAll v.named? scope nodes).bind fun types => Schema.unionOf? (before.reverse ++ types)) := by
  induction nodes generalizing v before with
  | nil =>
    have union : Schema.unionOf? before.reverse = some (.union before.reverse) := by
      rw [Schema.unionOf?, if_pos]
      have some : before ≠ [] := nonempty.resolve_right fun absurd => absurd rfl
      refine ⟨by simpa using some, fun type member => flat type (List.mem_reverse.mp member), ?_⟩
      exact ((List.reverse_perm before).map _).nodup_iff.mpr labels
    rw [Node.meaningAll, Option.bind_some, List.append_nil, union]
    exact Means.pure
  | cons node rest ih =>
    rw [List.forall_mem_cons] at each
    rw [resolveBranches, Node.sitesAll]
    refine (each.1 v scope context).append (fun none => ?_) fun branch v₁ same found => ?_
    · rw [Node.meaningAll, none]
      rfl
    · rw [Node.meaningAll, found, Option.bind_some, Option.bind_map, ← named?_congr same]
      refine Means.decide addBranch_decides (fun refused => ?_) fun _ added => ?_
      · cases Node.meaningAll v₁.named? scope rest with
        | none => rfl
        | some types => exact unionOf?_spoiled (by simpa using refused)
      · obtain ⟨⟨noUnion, fresh⟩, given⟩ := Option.ite_none_right_eq_some.mp added
        obtain rfl := Option.some.inj given
        have order (types : List Schema) : before.reverse ++ branch :: types = (branch :: before).reverse ++ types := by
          simp
        simp only [Function.comp_def, order]
        refine ih each.2 (Or.inl (List.cons_ne_nil _ _)) (List.forall_mem_cons.mpr ⟨noUnion, flat⟩) ?_
        simpa using ⟨fresh, labels⟩

theorem resolveFields_means {scope : Option String} {full : String} {fields : List Node.Field}
    (each : ∀ field ∈ fields, ∀ type, field.type = some type → Meant type) :
    Means v (resolveFields scope full fields) (Node.sitesIn scope fields) (Node.fieldTypes v.named? scope fields) := by
  induction fields generalizing v with
  | nil => exact Means.pure
  | cons field rest ih =>
    rw [List.forall_mem_cons] at each
    obtain ⟨_ | _, label, type⟩ := field
    · exact Means.refuse
    · cases label with
      | none => exact Means.refuse
      | some label =>
        have valid : Node.validName none label = isName label := Bool.and_true _
        rw [resolveFields]
        refine Means.decide Decides.require (fun absurd => by cases absurd) fun _ given => ?_
        obtain rfl := Option.some.inj given
        refine Means.decide validateName_decides (fun refused => ?_) fun _ given => ?_
        · cases type with
          | none => rfl
          | some type => rw [Node.fieldTypes, ← valid, if_neg (by simpa using refused)]
        · cases type with
          | none => exact Means.refuse
          | some type =>
            rw [Node.fieldTypes, Node.sitesIn, ← valid, if_pos (by simpa using given)]
            refine (each.1 type rfl v scope _).append (fun none => none ▸ rfl) fun schema v₁ same found => ?_
            rw [found, Option.bind_some, ← named?_congr same]
            exact (ih each.2).map

/-- A pending record gets the fields that its definition means. -/
theorem fulfils_define {site : Site} {r : RecordRef} {fields : List FieldType} {catalog : Catalog}
    (consistent : v.Consistent) (known : Keyed.get? site.fullName v.named = some (.record r))
    (kind : site.isRecord = true) (bound : ∀ field ∈ fields, field.schema.Bound v.named)
    (types : site.fieldTypes? v.named? = some fields) (defined : v.catalog.define r fields = .ok catalog) :
    Fulfils [site] v { v with catalog } := by
  constructor
  case toResolves =>
    rw [List.map_singleton, Site.definition, kind]
    exact resolves_define consistent known bound defined
  case fieldTypes =>
    refine List.forall_mem_singleton.mpr fun r' known' => ?_
    obtain rfl := Schema.record.inj (Option.some.inj (known.symm.trans known'))
    obtain ⟨type, found, _⟩ := consistent.placed known
    rw [Catalog.fields?, Catalog.define_ok defined, found, types, Option.map_some, if_pos rfl, Option.bind_some,
      RecordType.types?_numbered]
  case sameDocs =>
    intro full r' known'
    obtain ⟨type, found, _⟩ := consistent.placed known'
    rw [Catalog.doc?, Catalog.doc?, Catalog.define_ok defined, found]
    simp only [Option.map_some, Option.bind_some]
    split <;> rfl

theorem define_means (site : Site) {r : RecordRef} {fields : List FieldType}
    (known : Keyed.get? site.fullName v.named = some (.record r)) (kind : site.isRecord = true)
    (bound : ∀ field ∈ fields, field.schema.Bound v.named)
    (types : site.fieldTypes? v.named? = FieldType.distinct? fields) {schema : Schema} :
    Means v
      (do
        let v ← get
        match v.catalog.define r fields with
        | .ok catalog => set { v with catalog }
        | .error e => throw e
        return schema)
      [site] ((site.fieldTypes? v.named?).map fun _ => schema) := by
  intro consistent pending
  have waiting : ⟨site.fullName, true⟩ ∈ [site].map Site.definition := by simp [Site.definition, kind]
  obtain ⟨_, ⟨⟩, undefined⟩ := pending.undefined waiting known
  rw [FieldType.distinct?] at types
  refine Ends.get ?_
  by_cases distinct : (fields.map FieldType.name).Nodup
  · rw [if_pos distinct] at types
    obtain ⟨catalog, defined⟩ := Catalog.define_of_distinct undefined distinct
    rw [defined, types]
    exact ⟨fulfils_define consistent known kind bound types defined, rfl⟩
  · rw [if_neg distinct] at types
    cases defined : v.catalog.define r fields with
    | ok catalog => exact absurd (Catalog.define_distinct defined) distinct
    | error e =>
      apply Ends.throw_bind
      rw [types]
      rfl

/-- A definition without fields of its own means the type that it declares. -/
theorem declared_means (site : Site) {context : String} (kind : site.isRecord = false) :
    Means v (do let (schema, _, _) ← declared site.head site.enclosing context; return schema) [site]
      (site.head.type? v.named? site.enclosing) := by
  intro consistent pending
  refine declared_decides.bind (fun none _ => Option.map_eq_none_iff.mp none) fun found given => ?_
  obtain ⟨schema, type, rfl⟩ := Option.map_eq_some_iff.mp given
  obtain ⟨schema', known', isRecord, _⟩ := pending.known site.definition List.mem_cons_self
  have noRecord (r : RecordRef) : Keyed.get? site.fullName v.named ≠ some (.record r) := by
    intro known
    obtain rfl := Option.some.inj (known'.symm.trans known)
    rw [Site.definition, kind] at isRecord
    cases isRecord
  refine ⟨⟨⟨Fills.refl consistent, ?_⟩, ?_, fun _ => rfl⟩, type⟩
  · exact List.forall_mem_singleton.mpr fun r known => absurd known (noRecord r)
  · exact List.forall_mem_singleton.mpr fun r known => absurd known (noRecord r)

theorem resolveFields_bound {scope : Option String} {full : String} (fields : List Node.Field) (consistent : v.Consistent)
    (pending : Pending ((Node.sitesIn scope fields).map Site.definition) v) :
    Ends (resolveFields scope full fields) v (fun types _ => ∀ field ∈ types, field.schema.Bound v.named)
      fun _ => True := by
  rw [Node.map_sitesIn fun _ _ type _ => Node.map_sites scope type] at pending
  exact (resolveFields_resolving (fun _ _ type _ => resolve_resolvable type) consistent pending).mono
    (fun _ _ holds => holds.2) fun _ _ => trivial

theorem resolveRecord_means {head : Node.Head} {doc : Option String} {fields : Option (List Node.Field)}
    {scope : Option String} {context : String}
    (each : ∀ entries, fields = some entries → ∀ entry ∈ entries, ∀ type, entry.type = some type → Meant type) :
    Means v (resolve scope context (.record head doc fields)) (Node.sites scope (.record head doc fields))
      (Node.meaning v.named? scope (.record head doc fields)) := by
  intro consistent pending
  rw [resolve]
  have site : (⟨scope, head, .record doc fields⟩ : Site) ∈ Node.sites scope (.record head doc fields) := by
    cases fields <;> exact List.mem_cons_self
  refine declared_decides.bind (fun none _ => ?_) fun found given => ?_
  · have unknown := Option.map_eq_none_iff.mp none
    cases fields with
    | none => exact unknown
    | some entries =>
      rw [Node.meaning, unknown]
      rfl
  · obtain ⟨schema, type, rfl⟩ := Option.map_eq_some_iff.mp given
    obtain ⟨_, _, known⟩ := Option.bind_eq_some_iff.mp type
    obtain ⟨r, rfl, undefined⟩ := pending.undefined (List.mem_map_of_mem site) known
    have holds := consistent.bound_of_get? known
    refine Ends.get ?_
    dsimp only
    rw [undefined, if_neg Bool.false_ne_true]
    cases fields with
    | none =>
      rw [Node.meaning, type]
      exact define_means ⟨scope, head, .record doc none⟩ known rfl (List.forall_mem_nil _) rfl
        consistent pending
    | some entries =>
      rw [Node.meaning, type, Option.bind_some]
      rw [Node.sites] at pending ⊢
      -- the fields come first, then the record itself
      have order (first : Site) (nested : List Site) : (nested ++ [first]).Perm (first :: nested) :=
        List.perm_append_comm
      refine Means.perm ?_ (order _ _) consistent pending
      refine (resolveFields_means (each entries rfl)).appendWith _ (resolveFields_bound entries) (fun none => ?_)
        fun types v₁ same meant bound => ?_
      · rw [none]
        rfl
      · have fieldTypes : Site.fieldTypes? ⟨scope, head, .record doc (some entries)⟩ v₁.named? =
            FieldType.distinct? types := by
          rw [Site.fieldTypes?_record, named?_congr same, meant, Option.bind_some]
        rw [meant, Option.bind_some, ← fieldTypes]
        rw [← same] at bound
        exact define_means ⟨scope, head, .record doc (some entries)⟩ (same ▸ known) rfl bound fieldTypes

theorem resolve_meant (node : Node) : Meant node := by
  induction node using Node.induction with
  | name name =>
    intro v scope context
    rw [resolve]
    exact Means.of_decides resolveName_decides
  | union branches ih =>
    intro v scope context
    rw [resolve]
    cases branches with
    | nil => exact Means.refuse
    | cons branch rest =>
      apply resolveBranches_means ih (Or.inr (List.cons_ne_nil _ _))
      · exact List.forall_mem_nil _
      · exact List.nodup_nil
  | foreign json =>
    intro v scope context
    rw [resolve]
    exact Means.refuse
  | untyped =>
    intro v scope context
    rw [resolve]
    exact Means.refuse
  | wrapped inner ih =>
    intro v scope context
    rw [resolve]
    exact ih v scope context
  | record head doc fields ih => exact fun v scope context => resolveRecord_means ih
  | enum head symbols =>
    intro v scope context
    rw [resolve]
    exact declared_means ⟨scope, head, .enum symbols⟩ rfl
  | fixed head size =>
    intro v scope context
    rw [resolve]
    exact declared_means ⟨scope, head, .fixed size⟩ rfl
  | array items ih =>
    intro v scope context
    cases items with
    | none =>
      rw [resolve]
      exact Means.refuse
    | some items =>
      rw [resolve]
      exact (ih items rfl v scope context).map
  | map values ih =>
    intro v scope context
    cases values with
    | none =>
      rw [resolve]
      exact Means.refuse
    | some values =>
      rw [resolve]
      exact (ih values rfl v scope context).map
  | tagged tag =>
    intro v scope context
    rw [resolve]
    exact Means.of_decides resolveName_decides

end Vocabulary

end TrackedRecord
