import TrackedRecord.Proofs.Schema.Resolving

/-!
# Parsed batches

A batch that is parsed adds its definitions, all of them new, and gives each record among them its fields.
A batch that is refused may leave names behind, but changes nothing of what was known before.
-/

namespace TrackedRecord.Vocabulary

variable {v v₁ v' : Vocabulary} {definitions : List Node.Definition}

/-- The definitions were new, and the records among them have their fields. -/
structure Parses (definitions : List Node.Definition) (v v' : Vocabulary) : Prop
    extends Adds definitions v v' where
  fresh : ∀ d ∈ definitions, Keyed.get? d.fullName v.named = none
  defined : ∀ d ∈ definitions, ∀ r, Keyed.get? d.fullName v'.named = some (.record r) →
    (v'.catalog.fields? r).isSome

/-- What the second pass fills in belongs to names that the first pass has added. -/
theorem Declares.fill (declared : Declares definitions v v₁) (fills : Fills definitions v₁ v') :
    Adds definitions v v' where
  consistent := fills.consistent
  kept known := fills.named ▸ declared.kept known
  added absent present := declared.added absent (fills.named ▸ present)
  fields {full r} known := by
    have other : full ∉ definitions.map Node.Definition.fullName := by
      intro member
      obtain ⟨d, present, rfl⟩ := List.mem_map.mp member
      rw [declared.fresh d present] at known
      cases known
    exact (fills.fields (declared.kept known) other).trans (declared.fields known)

theorem passes_ends {α : Type} {first : Parsing Unit} {second : Parsing α}
    (result : List (String × Schema) → α → Prop) (declaring : Declaring first definitions)
    (resolving : ∀ v, Resolving v second definitions (result v.named)) (consistent : v.Consistent) :
    Ends (first >>= fun _ => second) v (fun a v' => Parses definitions v v' ∧ result v'.named a)
      fun v' => Adds definitions v v' := by
  refine Ends.bind ((declaring v consistent).mono (fun _ _ declared => declared) fun _ adds => adds) ?_
  intro _ v₁ declared
  refine (resolving v₁ declared.consistent declared.toPending).mono ?_ fun v' fills => declared.fill fills
  rintro a v' ⟨resolves, holds⟩
  rw [← resolves.named] at holds
  refine ⟨⟨declared.fill resolves.toFills, declared.fresh, fun d member r known => ?_⟩, holds⟩
  exact resolves.defined d member r (resolves.named ▸ known)

theorem resolveAll_resolving {nodes : List Node} (v : Vocabulary) :
    Resolving v (resolveAll nodes) (Node.definitionsAll none nodes)
      fun roots => ∀ root ∈ roots, root.Bound v.named := by
  induction nodes generalizing v with
  | nil => exact Resolving.nothing (List.forall_mem_nil _)
  | cons node rest ih =>
    rw [resolveAll, Node.definitionsAll]
    refine (resolve_resolvable node v none _).append fun root v₁ same bound => ?_
    rw [← same] at bound ⊢
    exact (ih v₁).map fun roots others => List.forall_mem_cons.mpr ⟨bound, others⟩

/-- The definitions in some documents. -/
def definitionsOf (documents : List Json) : List Node.Definition :=
  Node.definitionsAll none (documents.map Node.ofJson)

theorem parseDocuments_ends {documents : List Json} (consistent : v.Consistent) :
    Ends (parseDocuments documents) v
      (fun roots v' => Parses (definitionsOf documents) v v' ∧ ∀ root ∈ roots, root.Bound v'.named)
      fun v' => Adds (definitionsOf documents) v v' :=
  passes_ends (fun names (roots : List Schema) => ∀ root ∈ roots, root.Bound names)
    (declareAll_declaring fun node _ => declare_declaring none node) resolveAll_resolving consistent

/-! ### Calls -/

/-- A call that parses. -/
inductive Call where
  | batch (documents : List Json)
  /-- With what is read of texts. -/
  | text (read : String → Except String Json) (source : String)

namespace Call

/-- The schemas that a call gives; a text has one. -/
def parse : Call → Parsing (List Schema)
  | .batch documents => parseDocuments documents
  | .text read source => do
    let root ← parseTextWith read source
    return [root]

def documents : Call → Except SchemaError (List Json)
  | .batch documents => .ok documents
  | .text read source =>
    match read source with
    | .ok json => .ok [json]
    | .error reason => .error ⟨"<input>", .notJson reason⟩

/-- The definitions in what a call is given; a text that cannot be read has none. -/
def defines (call : Call) : List Node.Definition :=
  match call.documents with
  | .ok documents => definitionsOf documents
  | .error _ => []

/-- A text is a batch of one document. -/
theorem parse_eq (call : Call) :
    call.parse = match call.documents with
      | .ok documents => parseDocuments documents
      | .error e => throw e := by
  cases call with
  | batch documents => rfl
  | text read source =>
    cases given : read source with
    | error reason =>
      simp only [parse, documents, parseTextWith, given]
      rfl
    | ok json =>
      simp only [parse, documents, parseTextWith, given, parseDocuments, parseNodes, List.map, declareAll, resolveAll,
        bind_assoc, pure_bind]

theorem parse_ends (call : Call) (consistent : v.Consistent) :
    Ends call.parse v
      (fun roots v' => Parses call.defines v v' ∧ ∀ root ∈ roots, root.Bound v'.named)
      fun v' => Adds call.defines v v' := by
  rw [parse_eq, defines]
  cases call.documents with
  | ok documents => exact parseDocuments_ends consistent
  | error e => exact Ends.throw (Adds.refl consistent)

end Call

/-- What calls make of a vocabulary, whether they parse or are refused. -/
inductive Runs (v : Vocabulary) : Vocabulary → Prop where
  | nothing : Runs v v
  | parsed {v₁ v' : Vocabulary} {roots : List Schema} (runs : Runs v v₁) (call : Call)
    (run : call.parse v₁ = .ok roots v') : Runs v v'
  | refused {v₁ v' : Vocabulary} {e : SchemaError} (runs : Runs v v₁) (call : Call)
    (run : call.parse v₁ = .error e v') : Runs v v'

/-- Every call so far has succeeded. -/
inductive Parsed : Vocabulary → Prop where
  | new : Parsed {}
  | call {v v' : Vocabulary} {roots : List Schema} (parsed : Parsed v) (call : Call)
    (run : call.parse v = .ok roots v') : Parsed v'

theorem consistent_new : Consistent {} where
  named known := nomatch known
  placed known := nomatch known
  bound known := nomatch known

/-- No call changes what is known. -/
theorem Runs.keeps (runs : Runs v v') (consistent : v.Consistent) : v'.Consistent ∧ Keeps v v' := by
  induction runs with
  | nothing => exact ⟨consistent, .refl v⟩
  | parsed _ call run ih =>
    have adds := ((call.parse_ends ih.1).ok run).1.toAdds
    exact ⟨adds.consistent, ih.2.trans adds.toKeeps⟩
  | refused _ call run ih =>
    have adds := (call.parse_ends ih.1).error run
    exact ⟨adds.consistent, ih.2.trans adds.toKeeps⟩

/-- Every record that is known has its fields. -/
structure Settled (v : Vocabulary) : Prop extends Consistent v where
  defined : ∀ {full r}, Keyed.get? full v.named = some (.record r) → (v.catalog.fields? r).isSome

theorem Settled.parse (settled : v.Settled) (parses : Parses definitions v v') : v'.Settled where
  toConsistent := parses.consistent
  defined {full r} known := by
    cases before : Keyed.get? full v.named with
    | none =>
      obtain ⟨d, member, rfl⟩ := parses.added before (by rw [known]; rfl)
      exact parses.defined d member r known
    | some schema =>
      obtain rfl := Option.some.inj ((parses.kept before).symm.trans known)
      rw [parses.fields before]
      exact settled.defined before

theorem Parsed.settled (parsed : v.Parsed) : v.Settled := by
  induction parsed with
  | new => exact ⟨consistent_new, fun known => nomatch known⟩
  | call _ call run ih => exact ih.parse ((call.parse_ends ih.toConsistent).ok run).1

end TrackedRecord.Vocabulary
