import TrackedRecord.Proofs.Result
import TrackedRecord.Proofs.Schema.Parsed
import TrackedRecord.Schema.Library

/-!
# Refused batches

A batch that is refused changes nothing of what was known before, and a library keeps its roots. But the
names that the batch has declared by then stay, and nothing takes them back: no later call may define them
again, and a record among them that has no fields never gets any.
-/

namespace TrackedRecord

namespace Vocabulary

variable {v v₁ v' : Vocabulary} {definitions : List Node.Definition}

/-- What is added to a vocabulary stays as it is, whatever is called later. -/
structure Leaves (definitions : List Node.Definition) (v v' : Vocabulary) : Prop
    extends Adds definitions v v' where
  lasting : ∀ {later}, Runs v' later → Keeps v' later
  refused : ∀ {later}, Runs v' later → ∀ call : Call,
    (∃ d ∈ call.defines, (v'.named? d.fullName).isSome) → ∃ e w, call.parse later = .error e w

/-- A name is defined once: what defines a known name is refused. -/
theorem refused_of_known (consistent : v.Consistent) {call : Call} {d : Node.Definition}
    (member : d ∈ call.defines) (known : (v.named? d.fullName).isSome) :
    ∃ e v', call.parse v = .error e v' := by
  cases run : call.parse v with
  | error e v' => exact ⟨e, v', rfl⟩
  | ok roots v' =>
    have fresh := ((call.parse_ends consistent).ok run).1.fresh d member
    rw [named?, fresh] at known
    cases known

theorem Adds.leaves (adds : Adds definitions v v') : Leaves definitions v v' where
  toAdds := adds
  lasting runs := (runs.keeps adds.consistent).2
  refused runs call := by
    rintro ⟨d, member, known⟩
    obtain ⟨consistent, keeps⟩ := runs.keeps adds.consistent
    obtain ⟨schema, found⟩ := Option.isSome_iff_exists.mp known
    exact refused_of_known consistent member (Option.isSome_iff_exists.mpr ⟨schema, keeps.kept found⟩)

theorem bind_of_ok {α β : Type} {p : Parsing α} {f : α → Parsing β} {a : α} (first : p v = .ok a v₁) :
    (p >>= f) v = f a v₁ :=
  Result.bind_of_run first

/-- Where only the second pass fails, it leaves every name of the batch behind. -/
theorem known_of_declared {documents : List Json} {e : SchemaError} (consistent : v.Consistent)
    (declared : declareAll none (documents.map Node.ofJson) v = .ok () v₁)
    (run : parseDocuments documents v = .error e v') :
    ∀ d ∈ definitionsOf documents, (v'.named? d.fullName).isSome := by
  have declares : Declares (definitionsOf documents) v v₁ :=
    (declareAll_declaring (fun node _ => declare_declaring none node) v consistent).ok declared
  have fills : Fills (definitionsOf documents) v₁ v' := by
    refine (resolveAll_resolving v₁ declares.consistent declares.toPending).error (e := e) ?_
    rw [← run, parseDocuments, parseNodes, bind_of_ok declared]
  intro d member
  obtain ⟨schema, known, _⟩ := declares.known d member
  rw [named?, fills.named, known]
  rfl

end Vocabulary

namespace Library

/-- A call that loads, with what is read of texts. -/
inductive Call where
  | text (read : String → Except String Json) (source : String)
  | files (read : String → Except String Json) (table : Files.Table) (path : String)

namespace Call

/-- The number of schemas that are loaded. -/
def load : Call → Loading Nat
  | .text read source => addTextWith read source
  | .files read table path => do
    let batch ← loadWith read table path
    return batch.schemas

def documents : Call → Except SchemaError (List Json)
  | .text read source => documentsOfText read "<in-memory>" source
  | .files read table path => documentsOfFiles read table (filesAt table path)

/-- The definitions in what is loaded; what cannot be read has none. -/
def defines (call : Call) : List Node.Definition :=
  match call.documents with
  | .ok documents => Vocabulary.definitionsOf documents
  | .error _ => []

/-- Whatever is loaded is loaded as one batch. -/
theorem load_eq (call : Call) :
    call.load = match call.documents with
      | .ok documents => addDocuments documents
      | .error e => throw e := by
  cases call with
  | text read source => rfl
  | files read table path =>
    cases given : documentsOfFiles read table (filesAt table path) with
    | error e =>
      simp only [load, documents, loadWith, given]
      rfl
    | ok all => simp only [load, documents, loadWith, given, bind_assoc, pure_bind, bind_pure]

end Call

theorem addDocuments_error {documents : List Json} {library library' : Library} {e : SchemaError}
    (run : addDocuments documents library = .error e library') :
    library'.roots = library.roots ∧
      Vocabulary.parseDocuments documents library.vocabulary = .error e library'.vocabulary := by
  unfold addDocuments at run
  split at run
  · cases run
  · rename_i refused
    cases run
    exact ⟨rfl, refused⟩

end Library

namespace Vocabulary

/-- A refused call leaves what was known, and the roots of a library, as they were. The names that it has
declared are left behind for good, all of them where only the second pass has failed. -/
theorem refused_leaves {v : Vocabulary} (runs : Runs {} v) :
    (∀ (call : Call) (e : SchemaError) (v' : Vocabulary), call.parse v = .error e v' →
      Leaves call.defines v v' ∧
      ∀ documents v₁, call.documents = .ok documents →
        declareAll none (documents.map Node.ofJson) v = .ok () v₁ →
        ∀ d ∈ call.defines, (v'.named? d.fullName).isSome) ∧
    ∀ (roots : List Schema) (call : Library.Call) (e : SchemaError) (library : Library),
      call.load ⟨v, roots⟩ = .error e library →
      library.roots = roots ∧ Leaves call.defines v library.vocabulary := by
  have consistent := (runs.keeps consistent_new).1
  constructor
  · intro call e v' run
    refine ⟨((call.parse_ends consistent).error run).leaves, ?_⟩
    intro documents v₁ given declared
    rw [call.parse_eq, given] at run
    rw [Call.defines, given]
    exact known_of_declared consistent declared run
  · intro roots call e library run
    rw [call.load_eq] at run
    rw [Library.Call.defines]
    cases given : call.documents with
    | error e =>
      rw [given] at run
      cases run
      exact ⟨rfl, (Adds.refl consistent).leaves⟩
    | ok documents =>
      rw [given] at run
      obtain ⟨same, refused⟩ := Library.addDocuments_error run
      exact ⟨same, ((parseDocuments_ends consistent).error refused).leaves⟩

/-! ### A refused document -/

namespace Draft

/-- A record with one field. -/
def document (type : String) : Json :=
  .object [("type", .string "record"), ("name", .string "A"),
    ("fields", .array [.object [("name", .string "b"), ("type", .string type)]])]

/-- No type has the name of the field's type. -/
def faulty : Call := .batch [document "Missing"]

def corrected : Call := .batch [document "int"]

def record : RecordRef := ⟨"A", none, 0⟩

/-- The record is known and has no fields. -/
def left : Vocabulary := ⟨⟨[⟨"A", none, none, none⟩]⟩, [("A", .record record)]⟩

theorem parse_faulty : faulty.parse {} = .error ⟨"A.b", .undefinedType "Missing"⟩ left := by
  have node : [document "Missing"].map Node.ofJson =
    [.record ⟨some "A", none⟩ none (some [⟨true, some "b", some (.name "Missing")⟩])] := rfl
  have toMissing (v : Vocabulary) := v.lookup?_bare "Missing" (by simp)
  rw [faulty, Call.parse, parseDocuments, parseNodes, node]
  simp only [resolveAll, resolve, resolveFields, resolveName, toMissing]
  rfl

end Draft

theorem refused_leaves_draft :
    Runs {} {} ∧ Draft.faulty.parse {} = .error ⟨"A.b", .undefinedType "Missing"⟩ Draft.left ∧
      Leaves Draft.faulty.defines {} Draft.left :=
  ⟨.nothing, Draft.parse_faulty, ((refused_leaves .nothing).1 Draft.faulty _ _ Draft.parse_faulty).1⟩

/-- The corrected document would parse, but not after the faulty one. -/
theorem corrected_refused :
    Draft.faulty.parse {} = .error ⟨"A.b", .undefinedType "Missing"⟩ Draft.left ∧
      named? {} "A" = none ∧ named? Draft.left "A" = some (.record Draft.record) ∧
      Draft.left.catalog.fields? Draft.record = none ∧
      (∃ v, Draft.corrected.parse {} = .ok [.record Draft.record] v) ∧
      Draft.corrected.parse Draft.left = .error ⟨"A", .redefined⟩ Draft.left := by
  have parsed : Draft.corrected.parse {} = .ok [.record Draft.record]
      ⟨⟨[⟨"A", none, none, some [⟨⟨"b", .primitive .int⟩, 0⟩]⟩]⟩, [("A", .record Draft.record)]⟩ := by rfl
  exact ⟨Draft.parse_faulty, rfl, rfl, rfl, ⟨_, parsed⟩, by rfl⟩

end Vocabulary

end TrackedRecord
