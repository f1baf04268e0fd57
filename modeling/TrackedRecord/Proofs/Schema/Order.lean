import TrackedRecord.Proofs.Schema.Fulfilled

/-!
# The order of documents

A batch of documents parses in every order or in none. What its references stand for depends on the names that
are known after the batch, wherever their definitions stand.
-/

namespace TrackedRecord

namespace Schema

theorem records_of_unplaced {a b : Schema} (same : a.unplaced = b.unplaced) :
    (∃ r r', a = .record r ∧ b = .record r') ∨ a.record? = none ∧ b.record? = none := by
  cases a with
  | record r =>
    cases b with
    | record r' => exact Or.inl ⟨r, r', rfl, rfl⟩
    | _ => simp [unplaced] at same
  | _ =>
    cases b with
    | record r' => simp [unplaced] at same
    | _ => exact Or.inr ⟨rfl, rfl⟩

end Schema

namespace Vocabulary

open Node (Site)

variable {v v₁ v₂ v' : Vocabulary} {documents documents' : List Json} {roots roots' : List Schema}

/-! ### A batch -/

/-- The definitions in some documents, with the namespaces around them. -/
def sitesOf (documents : List Json) : List Site := Node.sitesAll none (documents.map Node.ofJson)

theorem sitesOf_perm (same : documents.Perm documents') : (sitesOf documents).Perm (sitesOf documents') := by
  rw [sitesOf, sitesOf, Node.sitesAll_eq, Node.sitesAll_eq]
  exact (same.map _).flatMap_right _

/-- What the documents stand for. -/
def meaningsOf (known : String → Option Schema) (documents : List Json) : Option (List Schema) :=
  Node.meaningAll known none (documents.map Node.ofJson)

theorem resolveAll_means {nodes : List Node} :
    Means v (resolveAll nodes) (Node.sitesAll none nodes) (Node.meaningAll v.named? none nodes) := by
  induction nodes generalizing v with
  | nil => exact Means.pure
  | cons node rest ih =>
    rw [resolveAll, Node.sitesAll, Node.meaningAll]
    refine (resolve_meant node v none _).append (fun none => none ▸ rfl) fun root v₁ same found => ?_
    rw [found, Option.bind_some, ← named?_congr same]
    exact ih.map

/-- The batch is parsed exactly if its definitions can be declared and each document then has a meaning. -/
theorem parseDocuments_means (consistent : v.Consistent) :
    Ends (parseDocuments documents) v
      (fun roots v' => ∃ v₁, Introduces (sitesOf documents) v v₁ ∧ Fulfils (sitesOf documents) v₁ v' ∧
        meaningsOf v₁.named? documents = some roots)
      fun _ => Introducible (sitesOf documents) v →
        ∃ v₁, Introduces (sitesOf documents) v v₁ ∧ meaningsOf v₁.named? documents = none := by
  have declaring : Introducing (declareAll none (documents.map Node.ofJson)) (sitesOf documents) :=
    declareAll_introducing fun node _ => declare_introducing none node
  refine Ends.bind ((declaring v consistent).mono (fun _ _ introduces => introduces) ?_) fun _ v₁ introduces => ?_
  · exact fun _ impossible introducible => absurd introducible impossible
  · refine (resolveAll_means introduces.consistent introduces.toPending).mono ?_ ?_
    · exact fun roots v' ⟨fulfils, meant⟩ => ⟨v₁, introduces, fulfils, meant⟩
    · exact fun _ none _ => ⟨v₁, introduces, none⟩

/-- What a batch makes of its documents. Every name that is known was known before or is that of a definition.
Each document, and each field of a record, is what it means among these names. -/
structure Binds (documents : List Json) (v : Vocabulary) (roots : List Schema) (v' : Vocabulary) : Prop
    extends Keeps v v' where
  known : ∀ full, (v'.named? full).isSome ↔
    (v.named? full).isSome ∨ ∃ site ∈ sitesOf documents, site.fullName = full
  roots : documents.map (fun document => (Node.ofJson document).meaning v'.named? none) = roots.map some
  types : ∀ site ∈ sitesOf documents, ∃ schema, v'.named? site.fullName = some schema ∧
    site.type? = some schema.unplaced
  fieldTypes : ∀ site ∈ sitesOf documents, ∀ r, v'.named? site.fullName = some (.record r) →
    ∃ fields, v'.catalog.fields? r = some fields ∧ site.fieldTypes? v'.named? = some fields
  docs : ∀ site ∈ sitesOf documents, ∀ r, v'.named? site.fullName = some (.record r) →
    v'.catalog.doc? r = site.doc?
  sameDocs : SameDocs v v'

theorem binds_of_passes (introduces : Introduces (sitesOf documents) v v₁)
    (fulfils : Fulfils (sitesOf documents) v₁ v') (meant : meaningsOf v₁.named? documents = some roots) :
    Binds documents v roots v' := by
  have same : v'.named? = v₁.named? := named?_congr fulfils.named
  have adds : Adds ((sitesOf documents).map Site.definition) v v' := introduces.fill fulfils.toFills
  constructor
  case toKeeps => exact adds.toKeeps
  case known =>
    intro full
    constructor
    · intro known
      cases before : v.named? full with
      | some schema => exact Or.inl rfl
      | none =>
        obtain ⟨d, declared, rfl⟩ := adds.added before known
        obtain ⟨site, member, rfl⟩ := List.mem_map.mp declared
        exact Or.inr ⟨site, member, rfl⟩
    · rintro (before | ⟨site, member, rfl⟩)
      · obtain ⟨schema, before⟩ := Option.isSome_iff_exists.mp before
        exact Option.isSome_iff_exists.mpr ⟨schema, adds.kept before⟩
      · obtain ⟨schema, _, known⟩ := introduces.types site member
        exact Option.isSome_iff_exists.mpr ⟨schema, same ▸ known⟩
  case roots =>
    rw [same, ← Node.meaningAll_eq_some.mp meant, List.map_map]
    rfl
  case types =>
    intro site member
    obtain ⟨schema, type, known⟩ := introduces.types site member
    exact ⟨schema, same ▸ known, type⟩
  case fieldTypes =>
    intro site member r known
    rw [same] at known ⊢
    obtain ⟨fields, defined⟩ := Option.isSome_iff_exists.mp
      (fulfils.defined site.definition (List.mem_map_of_mem member) r known)
    exact ⟨fields, defined, (fulfils.fieldTypes site member r known).symm.trans defined⟩
  case docs =>
    intro site member r known
    rw [same] at known
    exact (fulfils.sameDocs known).trans (introduces.docs site member r known)
  case sameDocs =>
    exact fun known => (fulfils.sameDocs (introduces.kept known)).trans (introduces.sameDocs known)

/-! ### Two orders -/

/-- The definitions can be declared, and each document then has a meaning. -/
def Parsable (documents : List Json) (v : Vocabulary) : Prop :=
  Introducible (sitesOf documents) v ∧ (meaningsOf (v.typesWith (sitesOf documents)) documents).isSome

theorem meaningsOf_unplaced (known : String → Option Schema) (documents : List Json) :
    meaningsOf (Node.unplacedTypes known) documents = (meaningsOf known documents).map (·.map Schema.unplaced) :=
  Node.meaningAll_unplaced fun node _ => node.meaning_unplaced

theorem parses_iff (consistent : v.Consistent) :
    (∃ roots v', parseDocuments documents v = .ok roots v') ↔ Parsable documents v := by
  unfold Parsable
  constructor
  · rintro ⟨roots, v', run⟩
    obtain ⟨v₁, introduces, _, meant⟩ := (parseDocuments_means consistent).ok run
    rw [← introduces.unplacedTypes_eq, meaningsOf_unplaced, meant]
    exact ⟨introduces.introducible, rfl⟩
  · rintro ⟨introducible, meant⟩
    cases run : parseDocuments documents v with
    | ok roots v' => exact ⟨roots, v', rfl⟩
    | error e v' =>
      obtain ⟨v₁, introduces, none⟩ := (parseDocuments_means consistent).error run introducible
      rw [← introduces.unplacedTypes_eq, meaningsOf_unplaced, none] at meant
      cases meant

theorem Parsable.perm (parsable : Parsable documents v) (same : documents.Perm documents') : Parsable documents' v := by
  obtain ⟨introducible, meant⟩ := parsable
  have sites := sitesOf_perm same
  refine ⟨introducible.perm sites, ?_⟩
  rw [typesWith_perm v introducible.distinct sites] at meant
  rw [Option.isSome_iff_ne_none] at meant ⊢
  intro spoiled
  obtain ⟨node, member, meaningless⟩ := Node.meaningAll_eq_none.mp spoiled
  exact meant (Node.meaningAll_eq_none.mpr ⟨node, (same.map _).mem_iff.mpr member, meaningless⟩)

/-- A named type as it is defined, with records by their names. -/
structure Definition where
  type : Schema
  doc : Option String
  fields : Option (List FieldType)

def definition? (v : Vocabulary) (full : String) : Option Definition :=
  (v.named? full).map fun schema =>
    { type := schema.unplaced
      doc := schema.record?.bind v.catalog.doc?
      fields := (schema.record?.bind v.catalog.fields?).map (·.map FieldType.unplaced) }

namespace Binds

theorem root_eq (binds : Binds documents v roots v') (i : Nat) :
    roots[i]?.map Schema.unplaced = documents[i]?.bind fun document =>
      ((Node.ofJson document).meaning v'.named? none).map Schema.unplaced := by
  have root := congrArg (·[i]?) binds.roots
  simp only [List.getElem?_map] at root
  cases given : roots[i]? with
  | none =>
    rw [given, Option.map_none, Option.map_eq_none_iff] at root
    rw [root]
    rfl
  | some schema =>
    rw [given] at root
    obtain ⟨document, at_i, meant⟩ := Option.map_eq_some_iff.mp root
    rw [at_i, Option.bind_some, meant]

variable (first : Binds documents v roots v₁) (second : Binds documents' v roots' v₂)
  (types : Node.unplacedTypes v₁.named? = Node.unplacedTypes v₂.named?)

include first second types

/-- A document has the same root, wherever it stands. -/
theorem roots_eq {i j : Nat} (document : documents[i]? = documents'[j]?) :
    roots[i]?.map Schema.unplaced = roots'[j]?.map Schema.unplaced := by
  rw [first.root_eq, second.root_eq, document]
  exact congrArg (Option.bind _) (funext fun document => Node.meaning_congr types none _)

variable (same : documents.Perm documents')

include same

/-- A record has the same fields after either batch. -/
theorem record_eq {full : String} {r₁ r₂ : RecordRef} (known₁ : v₁.named? full = some (.record r₁))
    (known₂ : v₂.named? full = some (.record r₂)) :
    v₁.catalog.doc? r₁ = v₂.catalog.doc? r₂ ∧
      (v₁.catalog.fields? r₁).map (·.map FieldType.unplaced) =
        (v₂.catalog.fields? r₂).map (·.map FieldType.unplaced) := by
  cases before : v.named? full with
  | some schema =>
    obtain rfl := Option.some.inj ((first.kept before).symm.trans known₁)
    obtain rfl := Schema.record.inj (Option.some.inj ((second.kept before).symm.trans known₂))
    rw [first.sameDocs before, second.sameDocs before, first.fields before, second.fields before]
    exact ⟨rfl, rfl⟩
  | none =>
    have declared := (first.known full).mp (by rw [known₁]; rfl)
    rw [before] at declared
    obtain ⟨site, member, rfl⟩ := declared.resolve_left Bool.false_ne_true
    have member' := (sitesOf_perm same).mem_iff.mp member
    obtain ⟨fields₁, defined₁, meant₁⟩ := first.fieldTypes site member r₁ known₁
    obtain ⟨fields₂, defined₂, meant₂⟩ := second.fieldTypes site member' r₂ known₂
    refine ⟨(first.docs site member r₁ known₁).trans (second.docs site member' r₂ known₂).symm, ?_⟩
    calc (v₁.catalog.fields? r₁).map (·.map FieldType.unplaced)
      _ = site.fieldTypes? (Node.unplacedTypes v₁.named?) := by rw [site.fieldTypes?_unplaced, defined₁, meant₁]
      _ = site.fieldTypes? (Node.unplacedTypes v₂.named?) := by rw [types]
      _ = (v₂.catalog.fields? r₂).map (·.map FieldType.unplaced) := by
        rw [site.fieldTypes?_unplaced, defined₂, meant₂]

theorem definition?_eq (full : String) : v₁.definition? full = v₂.definition? full := by
  have type := congrFun types full
  simp only [Node.unplacedTypes] at type
  unfold definition?
  cases known₁ : v₁.named? full with
  | none =>
    rw [known₁, Option.map_none] at type
    rw [Option.map_eq_none_iff.mp type.symm]
    rfl
  | some schema₁ =>
    rw [known₁] at type
    obtain ⟨schema₂, known₂, unplaced⟩ := Option.map_eq_some_iff.mp type.symm
    rw [known₂, Option.map_some, Option.map_some, unplaced]
    rcases Schema.records_of_unplaced unplaced with ⟨r₂, r₁, rfl, rfl⟩ | ⟨noRecord₂, noRecord₁⟩
    · obtain ⟨doc, fields⟩ := first.record_eq second types same known₁ known₂
      simp only [Schema.record?, Option.bind_some, doc, fields]
    · rw [noRecord₁, noRecord₂]
      rfl

end Binds

/-- A batch parses exactly if its definitions can be declared and its documents then have a meaning, so in every
order or in none. After it every document has the same root and every name the same definition, whatever the order:
each reference stands for what it means among the names that are known by then. -/
theorem parse_order (runs : Runs {} v) (same : documents.Perm documents') :
    ((∃ roots v', parseDocuments documents v = .ok roots v') ↔ Parsable documents v) ∧
    ((∃ roots v', parseDocuments documents v = .ok roots v') ↔
      ∃ roots v', parseDocuments documents' v = .ok roots v') ∧
    ∀ roots v₁, parseDocuments documents v = .ok roots v₁ →
      Binds documents v roots v₁ ∧
      ∀ roots' v₂, parseDocuments documents' v = .ok roots' v₂ →
        (∀ i j : Nat, documents[i]? = documents'[j]? →
          roots[i]?.map Schema.unplaced = roots'[j]?.map Schema.unplaced) ∧
        ∀ full, v₁.definition? full = v₂.definition? full := by
  have consistent := (runs.keeps consistent_new).1
  refine ⟨parses_iff consistent, ?_, fun roots v₁ run => ?_⟩
  · rw [parses_iff consistent, parses_iff consistent]
    exact ⟨fun parsable => parsable.perm same, fun parsable => parsable.perm same.symm⟩
  · obtain ⟨w₁, introduces, fulfils, meant⟩ := (parseDocuments_means consistent).ok run
    have binds := binds_of_passes introduces fulfils meant
    refine ⟨binds, fun roots' v₂ run' => ?_⟩
    obtain ⟨w₂, introduces', fulfils', meant'⟩ := (parseDocuments_means consistent).ok run'
    have binds' := binds_of_passes introduces' fulfils' meant'
    have types : Node.unplacedTypes v₁.named? = Node.unplacedTypes v₂.named? := by
      rw [named?_congr fulfils.named, named?_congr fulfils'.named, introduces.unplacedTypes_eq,
        introduces'.unplacedTypes_eq]
      exact typesWith_perm v introduces.introducible.distinct (sitesOf_perm same)
    exact ⟨fun i j document => binds.roots_eq binds' types document, binds.definition?_eq binds' types same⟩

/-! ### A name within a namespace and without one -/

namespace Shadow

def fixed (name : String) (size : Nat) : Json :=
  .object [("type", .string "fixed"), ("name", .string name), ("size", .nat size)]

/-- A record in the namespace `a` with a field of type `B`. -/
def holder : Json :=
  .object [("type", .string "record"), ("name", .string "a.A"),
    ("fields", .array [.object [("name", .string "b"), ("type", .string "B")]])]

/-- The reference stands between the two types that it might name. -/
def batch : List Json := [fixed "B" 1, holder, fixed "a.B" 2]

def bare : Schema := .fixed ⟨"B", none, 1⟩

def within : Schema := .fixed ⟨"B", some "a", 2⟩

def record : RecordRef := ⟨"A", some "a", 0⟩

def vocabulary : Vocabulary where
  catalog := ⟨[⟨"A", some "a", none, some [⟨⟨"b", within⟩, 0⟩]⟩]⟩
  named := [("B", bare), ("a.A", .record record), ("a.B", within)]

theorem splitOn_a : "a".splitOn "." = ["a"] := by
  rw [String.splitOn, if_neg (by decide), String.splitOnAux, if_neg (by decide), if_neg (by decide),
    String.splitOnAux, if_pos (by decide)]
  rfl

theorem parse_batch :
    parseDocuments batch {} = .ok [bare, .record record, within] vocabulary := by
  have nodes : batch.map Node.ofJson =
    [.fixed ⟨some "B", none⟩ (some 1),
      .record ⟨some "a.A", none⟩ none (some [⟨true, some "b", some (.name "B")⟩]),
      .fixed ⟨some "a.B", none⟩ (some 2)] := rfl
  have inA : splitName "a.A" none none = (some "a", "A") := rfl
  have inB : splitName "a.B" none none = (some "a", "B") := rfl
  have toB (v : Vocabulary) := v.lookup?_bare "B" (by simp)
  rw [parseDocuments, parseNodes, nodes]
  simp only [declareAll, declare, declareFixed, definitionName, validateName, inA, inB, splitOn_a, require, pure_bind,
    resolveAll, resolve, resolveFields, resolveName, toB]
  rfl

end Shadow

theorem parse_order_shadow :
    Runs {} {} ∧ Shadow.batch.Perm Shadow.batch.reverse ∧
      parseDocuments Shadow.batch {} = .ok [Shadow.bare, .record Shadow.record, Shadow.within] Shadow.vocabulary ∧
      ∃ roots v', parseDocuments Shadow.batch.reverse {} = .ok roots v' ∧
        ∀ full, Shadow.vocabulary.definition? full = v'.definition? full := by
  have same : Shadow.batch.Perm Shadow.batch.reverse := (List.reverse_perm _).symm
  obtain ⟨_, either, order⟩ := parse_order .nothing same
  obtain ⟨roots, v', run⟩ := either.mp ⟨_, _, Shadow.parse_batch⟩
  exact ⟨.nothing, same, Shadow.parse_batch, roots, v', run, ((order _ _ Shadow.parse_batch).2 roots v' run).2⟩

end Vocabulary

end TrackedRecord
