import TrackedRecord.Proofs.Schema.Sites

/-!
# What the first pass declares

The first pass declares the definitions of a batch exactly if each is valid and has a new name of its own. What
it declares under a name then depends on the definition of that name alone, not on the order.
-/

namespace TrackedRecord.Vocabulary

open Node (Site)

variable {α : Type} {v v₁ v₂ v' : Vocabulary} {sites more : List Site}

/-- Definitions that may be declared together: each is valid, and no name is known or comes twice. -/
structure Introducible (sites : List Site) (v : Vocabulary) : Prop where
  valid : ∀ site ∈ sites, site.type?.isSome
  distinct : (sites.map Site.fullName).Nodup
  fresh : ∀ site ∈ sites, Keyed.get? site.fullName v.named = none

/-- Records that were known have the same documentation. -/
def SameDocs (v v' : Vocabulary) : Prop :=
  ∀ {full r}, Keyed.get? full v.named = some (.record r) → v'.catalog.doc? r = v.catalog.doc? r

/-- The definitions are declared, each as the type that it says. -/
structure Introduces (sites : List Site) (v v' : Vocabulary) : Prop
    extends Declares (sites.map Site.definition) v v' where
  types : ∀ site ∈ sites, ∃ schema, site.type? = some schema.unplaced ∧
    Keyed.get? site.fullName v'.named = some schema
  docs : ∀ site ∈ sites, ∀ r, Keyed.get? site.fullName v'.named = some (.record r) →
    v'.catalog.doc? r = site.doc?
  sameDocs : SameDocs v v'

/-- What each name stands for once the definitions are declared. -/
def typesWith (v : Vocabulary) (sites : List Site) (full : String) : Option Schema :=
  ((v.named? full).map Schema.unplaced).or ((sites.find? fun site => site.fullName == full).bind Site.type?)

theorem find?_fullName (distinct : (sites.map Site.fullName).Nodup) {site : Site} (member : site ∈ sites) :
    (sites.find? fun other => other.fullName == site.fullName) = some site := by
  induction sites with
  | nil => cases member
  | cons first rest ih =>
    rw [List.map_cons, List.nodup_cons] at distinct
    rcases List.mem_cons.mp member with rfl | later
    · rw [List.find?_cons, beq_self_eq_true]
    · have other : first.fullName ≠ site.fullName := fun same => distinct.1 (same ▸ List.mem_map_of_mem later)
      rw [List.find?_cons_of_neg (by simpa using other), ih distinct.2 later]

/-- The order of distinct definitions does not count. -/
theorem typesWith_perm (v : Vocabulary) (distinct : (sites.map Site.fullName).Nodup) (same : sites.Perm more) :
    v.typesWith sites = v.typesWith more := by
  funext full
  have found : (sites.find? fun site => site.fullName == full) = more.find? fun site => site.fullName == full := by
    cases first : sites.find? fun site => site.fullName == full with
    | some site =>
      obtain rfl : site.fullName = full := by simpa using List.find?_some first
      have member := same.mem_iff.mp (List.mem_of_find?_eq_some first)
      rw [find?_fullName ((same.map _).nodup_iff.mp distinct) member]
    | none =>
      symm
      rw [List.find?_eq_none] at first ⊢
      exact fun site member => first site (same.mem_iff.mpr member)
  unfold typesWith
  rw [found]

theorem map_fullName (sites : List Site) :
    (sites.map Site.definition).map Node.Definition.fullName = sites.map Site.fullName := by
  rw [List.map_map]
  rfl

namespace Introducible

theorem of_append (introducible : Introducible (sites ++ more) v) : Introducible sites v where
  valid site member := introducible.valid site (List.mem_append_left _ member)
  distinct := by
    have distinct := introducible.distinct
    rw [List.map_append] at distinct
    exact (List.nodup_append.mp distinct).1
  fresh site member := introducible.fresh site (List.mem_append_left _ member)

theorem rest (introducible : Introducible (sites ++ more) v) (first : Introduces sites v v₁) :
    Introducible more v₁ := by
  have distinct := introducible.distinct
  rw [List.map_append, List.nodup_append] at distinct
  refine ⟨fun site member => introducible.valid site (List.mem_append_right _ member), distinct.2.1, ?_⟩
  intro site member
  have before := introducible.fresh site (List.mem_append_right _ member)
  cases after : Keyed.get? site.fullName v₁.named with
  | none => rfl
  | some schema =>
    obtain ⟨d, declared, same⟩ := first.added before (by rw [after]; rfl)
    obtain ⟨other, early, rfl⟩ := List.mem_map.mp declared
    exact absurd same (distinct.2.2 _ (List.mem_map_of_mem early) _ (List.mem_map_of_mem member))

theorem not_of_invalid {site : Site} (invalid : site.type? = none) : ¬Introducible (site :: sites) v := by
  intro introducible
  have valid := introducible.valid site List.mem_cons_self
  rw [invalid] at valid
  cases valid

theorem not_of_known {site : Site} (known : Keyed.contains site.fullName v.named = true) :
    ¬Introducible (site :: sites) v := by
  intro introducible
  rw [Keyed.contains, introducible.fresh site List.mem_cons_self] at known
  cases known

theorem perm (introducible : Introducible sites v) (same : sites.Perm more) : Introducible more v where
  valid site member := introducible.valid site (same.mem_iff.mpr member)
  distinct := (same.map _).nodup_iff.mp introducible.distinct
  fresh site member := introducible.fresh site (same.mem_iff.mpr member)

end Introducible

namespace Introduces

theorem nil (consistent : v.Consistent) : Introduces [] v v :=
  ⟨.nil consistent, List.forall_mem_nil _, List.forall_mem_nil _, fun _ => rfl⟩

theorem append (first : Introduces sites v v₁) (second : Introduces more v₁ v') :
    Introduces (sites ++ more) v v' where
  toDeclares := by
    rw [List.map_append]
    exact first.toDeclares.append second.toDeclares
  types := by
    rw [List.forall_mem_append]
    refine ⟨fun site member => ?_, second.types⟩
    obtain ⟨schema, type, known⟩ := first.types site member
    exact ⟨schema, type, second.kept known⟩
  docs := by
    rw [List.forall_mem_append]
    refine ⟨fun site member r known => ?_, second.docs⟩
    obtain ⟨schema, _, before⟩ := first.types site member
    obtain rfl := Option.some.inj ((second.kept before).symm.trans known)
    exact (second.sameDocs before).trans (first.docs site member r before)
  sameDocs known := (second.sameDocs (first.kept known)).trans (first.sameDocs known)

theorem introducible (introduces : Introduces sites v v') : Introducible sites v where
  valid site member := by
    obtain ⟨schema, type, _⟩ := introduces.types site member
    rw [type]
    rfl
  distinct := map_fullName sites ▸ introduces.distinct
  fresh site member := introduces.fresh site.definition (List.mem_map_of_mem member)

/-- A name that is known afterwards was known before or stands for the type of its definition. -/
theorem unplacedTypes_eq (introduces : Introduces sites v v') :
    Node.unplacedTypes v'.named? = v.typesWith sites := by
  funext full
  unfold typesWith Node.unplacedTypes
  cases before : v.named? full with
  | some schema =>
    have kept : v'.named? full = some schema := introduces.kept before
    rw [kept]
    rfl
  | none =>
    rw [Option.map_none, Option.none_or]
    cases found : sites.find? fun site => site.fullName == full with
    | some site =>
      obtain rfl : site.fullName = full := by simpa using List.find?_some found
      obtain ⟨schema, type, known⟩ := introduces.types site (List.mem_of_find?_eq_some found)
      rw [Option.bind_some, type, ← Option.map_some]
      exact congrArg (Option.map Schema.unplaced) known
    | none =>
      cases known : v'.named? full with
      | none => rfl
      | some schema =>
        obtain ⟨d, declared, rfl⟩ := introduces.added before (Option.isSome_iff_exists.mpr ⟨schema, known⟩)
        obtain ⟨site, member, rfl⟩ := List.mem_map.mp declared
        exact absurd (beq_self_eq_true _) (List.find?_eq_none.mp found site member)

end Introduces

/-- The computation declares the definitions, or fails if that is impossible. -/
def Introducing (p : Parsing α) (sites : List Site) : Prop :=
  ∀ v : Vocabulary, v.Consistent → Ends p v (fun _ v' => Introduces sites v v') fun _ => ¬Introducible sites v

namespace Introducing

variable {β : Type} {p : Parsing α} {q : Parsing β}

theorem nothing {a : α} : Introducing (pure a) [] := fun _ consistent => Ends.pure (.nil consistent)

theorem append (first : Introducing p sites) (second : Introducing q more) :
    Introducing (p >>= fun _ => q) (sites ++ more) := by
  intro v consistent
  refine Ends.bind ((first v consistent).mono (fun _ _ introduces => introduces) ?_) fun _ v₁ introduces => ?_
  · exact fun _ impossible introducible => impossible introducible.of_append
  · refine (second v₁ introduces.consistent).mono (fun _ _ => introduces.append) ?_
    exact fun _ impossible introducible => impossible (introducible.rest introduces)

/-- A definition has a valid name. -/
theorem definition (site : Site) {f : Option String × String × String → Parsing α}
    (rest : ∀ names, site.head.valid? site.enclosing = some names → Introducing (f names) (site :: sites)) :
    Introducing (definitionName site.head site.enclosing >>= f) (site :: sites) := by
  intro v consistent
  refine definitionName_decides.bind (fun refused _ => Introducible.not_of_invalid ?_) fun names valid =>
    rest names valid v consistent
  rw [Site.type?, refused, Option.bind_none]

/-- The rest of a definition is valid as well. -/
theorem decide {site : Site} {f : α → Parsing β} {answer : Option α} (first : ∀ v, Decides p v answer)
    (invalid : answer = none → site.type? = none) (rest : ∀ a, answer = some a → Introducing (f a) (site :: sites)) :
    Introducing (p >>= f) (site :: sites) :=
  fun v consistent => (first v).bind (fun refused _ => Introducible.not_of_invalid (invalid refused))
    fun a given => rest a given v consistent

end Introducing

/-! ### Definitions -/

theorem validName_of {scope : Option String} {name : String} (valid : Node.validName scope name = true) :
    ValidName scope name := by
  obtain ⟨bare, inside⟩ := Bool.and_eq_true_iff.mp valid
  refine ⟨bare, ?_⟩
  rintro _ rfl
  exact inside

theorem names_of_valid {site : Site} {names : Option String × String × String}
    (valid : site.head.valid? site.enclosing = some names) :
    site.names = names ∧ qualified names.1 names.2.1 = names.2.2 ∧
      site.type? = site.body.type? names.1 names.2.1 := by
  obtain ⟨raw, _, given⟩ := Option.bind_eq_some_iff.mp valid
  dsimp only at given
  split at given
  · rename_i bare
    obtain rfl := Option.some.inj given
    exact ⟨rfl, (validName_of bare).qualified, by rw [Site.type?, valid]; rfl⟩
  · cases given

/-- A new name for a type introduces its definition. -/
theorem introduces_put {site : Site} (schema : Schema) {catalog : Catalog} (consistent : v.Consistent)
    (fresh : Keyed.get? site.fullName v.named = none) (named : schema.IsNamed)
    (name : schema.typeName = site.fullName) (kind : schema.isRecord = site.isRecord)
    (type : site.type? = some schema.unplaced) (grows : v.catalog.Extends catalog)
    (record : ∀ r, schema = .record r → ∃ type, catalog.record? r = some type ∧
      (type.name = r.name ∧ type.scope = r.scope) ∧ type.fields = none ∧ type.doc = site.doc?) :
    Introduces [site] v ⟨catalog, Keyed.put site.fullName schema v.named⟩ := by
  have known : Keyed.get? site.fullName (Keyed.put site.fullName schema v.named) = some schema :=
    (Keyed.get?_put ..).trans (if_pos rfl)
  constructor
  case toDeclares =>
    rw [List.map_singleton, Site.definition, ← kind]
    refine declares_put fresh named name grows (fun r same => ?_) consistent
    obtain ⟨type, found, named, fields, _⟩ := record r same
    exact ⟨type, found, named, fields⟩
  case types => exact List.forall_mem_singleton.mpr ⟨schema, type, known⟩
  case docs =>
    refine List.forall_mem_singleton.mpr fun r here => ?_
    obtain ⟨type, found, _, _, doc⟩ := record r (Option.some.inj (known.symm.trans here))
    rw [Catalog.doc?, found]
    exact doc
  case sameDocs =>
    intro full r before
    obtain ⟨type, found, _⟩ := consistent.placed before
    rw [Catalog.doc?, Catalog.doc?, grows.kept found, found]

theorem register_introducing (site : Site) {schema : Schema} (named : schema.IsNamed)
    (name : schema.typeName = site.fullName) (kind : schema.isRecord = site.isRecord)
    (noRecord : schema.isRecord = false) (type : site.type? = some schema) :
    Introducing (register site.fullName schema) [site] := by
  intro v consistent
  have unplaced : schema.unplaced = schema := by
    cases schema with
    | record r => cases noRecord
    | enum | fixed => rfl
    | primitive | array | map | union => exact named.elim
  unfold register
  refine Ends.get ?_
  dsimp only
  split
  · exact Ends.refuse_bind (Introducible.not_of_known ‹_›)
  · rename_i absent
    refine introduces_put schema consistent (get?_of_not_contains absent) named name kind (by rw [unplaced, type])
      ⟨id, id⟩ ?_
    rintro r rfl
    cases noRecord

theorem registerRecord_introducing (site : Site) {name : String} {scope doc : Option String}
    {fields : Option (List Node.Field)} (same : qualified scope name = site.fullName)
    (body : site.body = .record doc fields) (type : site.type? = some (.record ⟨name, scope, 0⟩)) :
    Introducing (registerRecord site.fullName name scope doc) [site] := by
  intro v consistent
  unfold registerRecord
  refine Ends.get ?_
  dsimp only
  split
  · exact Ends.refuse_bind (Introducible.not_of_known ‹_›)
  · rename_i absent
    refine introduces_put (.record (v.catalog.declare name scope doc).1) consistent
      (get?_of_not_contains absent) trivial same ?kind type (v.catalog.declare_extends name scope doc) ?record
    case kind =>
      rw [Site.isRecord, body]
      rfl
    case record =>
      rintro r ⟨⟩
      refine ⟨⟨name, scope, doc, none⟩, List.getElem?_concat_length, ⟨rfl, rfl⟩, rfl, ?_⟩
      rw [Site.doc?, body]

theorem declareEnum_introducing {head : Node.Head} {enclosing : Option String}
    {symbols : Option (List (Option String))} :
    Introducing (declareEnum head enclosing symbols) [⟨enclosing, head, .enum symbols⟩] := by
  refine Introducing.definition ⟨enclosing, head, .enum symbols⟩ ?_
  rintro ⟨scope, name, full⟩ valid
  obtain ⟨names, same, type⟩ := names_of_valid valid
  rw [Node.Body.type?] at type
  refine .decide (fun _ => Decides.require) (fun refused => by rw [type, refused]; rfl) ?_
  rintro symbols rfl
  rw [Option.bind_some] at type
  refine .decide (fun _ => validSymbols_decides) (fun refused => by rw [type, refused]; rfl) fun symbols found => ?_
  rw [found, Option.bind_some] at type
  dsimp only at type
  cases made : EnumType.new name scope symbols with
  | error e =>
    rw [made] at type
    exact fun v _ => Ends.throw (Introducible.not_of_invalid type)
  | ok e =>
    rw [made] at type
    obtain ⟨rfl, _, _⟩ := enumType_ok made
    obtain rfl : _ = full := congrArg (·.2.2) names
    exact register_introducing ⟨enclosing, head, .enum _⟩ trivial same rfl rfl type

theorem declareFixed_introducing {head : Node.Head} {enclosing : Option String} {size : Option Nat} :
    Introducing (declareFixed head enclosing size) [⟨enclosing, head, .fixed size⟩] := by
  refine Introducing.definition ⟨enclosing, head, .fixed size⟩ ?_
  rintro ⟨scope, name, full⟩ valid
  obtain ⟨names, same, type⟩ := names_of_valid valid
  rw [Node.Body.type?] at type
  refine .decide (fun _ => Decides.require) (fun refused => by rw [type, refused]; rfl) ?_
  rintro size rfl
  obtain rfl : _ = full := congrArg (·.2.2) names
  exact register_introducing ⟨enclosing, head, .fixed _⟩ trivial same rfl rfl type

/-! ### Nodes -/

theorem declareAll_introducing {enclosing : Option String} {nodes : List Node}
    (each : ∀ node ∈ nodes, Introducing (declare enclosing node) (node.sites enclosing)) :
    Introducing (declareAll enclosing nodes) (Node.sitesAll enclosing nodes) := by
  induction nodes with
  | nil => exact Introducing.nothing
  | cons node rest ih =>
    rw [List.forall_mem_cons] at each
    rw [declareAll, Node.sitesAll]
    exact each.1.append (ih each.2)

theorem declareFields_introducing {enclosing : Option String} {fields : List Node.Field}
    (each : ∀ field ∈ fields, ∀ type, field.type = some type →
      Introducing (declare enclosing type) (type.sites enclosing)) :
    Introducing (declareFields enclosing fields) (Node.sitesIn enclosing fields) := by
  induction fields with
  | nil => exact Introducing.nothing
  | cons field rest ih =>
    rw [List.forall_mem_cons] at each
    obtain ⟨isObject, label, type⟩ := field
    cases type with
    | none => exact ih each.2
    | some type =>
      rw [declareFields, Node.sitesIn]
      exact (each.1 type rfl).append (ih each.2)

theorem declare_introducing (enclosing : Option String) (node : Node) :
    Introducing (declare enclosing node) (node.sites enclosing) := by
  induction node using Node.induction generalizing enclosing with
  | union branches ih =>
    rw [declare, Node.sites]
    exact declareAll_introducing fun node member => ih node member enclosing
  | wrapped inner ih =>
    rw [declare, Node.sites]
    exact ih enclosing
  | record head doc fields ih =>
    rw [declare]
    cases fields with
    | none =>
      rw [Node.sites]
      refine Introducing.definition ⟨enclosing, head, .record doc none⟩ fun names valid v _ => ?_
      -- the name is registered all the same before the record is refused
      have impossible : ∀ _ : Vocabulary, ¬Introducible [⟨enclosing, head, .record doc none⟩] v :=
        fun _ => Introducible.not_of_invalid (names_of_valid valid).2.2
      exact Ends.bind (Ends.always impossible) fun _ v₁ _ => Ends.refuse (impossible v₁)
    | some fields =>
      rw [Node.sites]
      refine Introducing.definition ⟨enclosing, head, .record doc (some fields)⟩ ?_
      rintro ⟨scope, name, full⟩ valid
      obtain ⟨names, same, type⟩ := names_of_valid valid
      obtain rfl : _ = full := congrArg (·.2.2) names
      have nested : (head.names enclosing).1 = scope := congrArg (·.1) names
      rw [nested]
      refine (registerRecord_introducing ⟨enclosing, head, .record doc (some fields)⟩ same rfl type).append ?_
      exact declareFields_introducing fun field member type given => ih fields rfl field member type given scope
  | enum head symbols =>
    rw [declare, Node.sites]
    exact declareEnum_introducing
  | fixed head size =>
    rw [declare, Node.sites]
    exact declareFixed_introducing
  | array items ih =>
    cases items with
    | none => exact Introducing.nothing
    | some items =>
      rw [declare, Node.sites]
      exact ih items rfl enclosing
  | map values ih =>
    cases values with
    | none => exact Introducing.nothing
    | some values =>
      rw [declare, Node.sites]
      exact ih values rfl enclosing
  | name | foreign | untyped | tagged => exact Introducing.nothing

end TrackedRecord.Vocabulary
