import TrackedRecord.Proofs.Schema.Declaring
import TrackedRecord.Proofs.Schema.Meaning

/-!
# Definitions where they stand

A definition together with the namespace around it says which type it declares and, once all names are known,
which fields that type has. The first pass declares the definitions of a batch exactly if each is valid and
has a new name of its own, so that their order does not count.
-/

namespace TrackedRecord

namespace Node

open Vocabulary (isName)

inductive Body where
  | record (doc : Option String) (fields : Option (List Field))
  | enum (symbols : Option (List (Option String)))
  | fixed (size : Option Nat)

/-- A definition and the namespace around it. -/
structure Site where
  enclosing : Option String
  head : Head
  body : Body

mutual

/-- The definitions in a node, in order. -/
def sites (enclosing : Option String) : Node → List Site
  | .union branches => sitesAll enclosing branches
  | .wrapped inner => sites enclosing inner
  | .record head doc none => [⟨enclosing, head, .record doc none⟩]
  | .record head doc (some fields) =>
    ⟨enclosing, head, .record doc (some fields)⟩ :: sitesIn (head.names enclosing).1 fields
  | .enum head symbols => [⟨enclosing, head, .enum symbols⟩]
  | .fixed head size => [⟨enclosing, head, .fixed size⟩]
  | .array (some items) => sites enclosing items
  | .map (some values) => sites enclosing values
  | _ => []

def sitesAll (enclosing : Option String) : List Node → List Site
  | [] => []
  | node :: rest => sites enclosing node ++ sitesAll enclosing rest

def sitesIn (enclosing : Option String) : List Field → List Site
  | [] => []
  | ⟨_, _, some type⟩ :: rest => sites enclosing type ++ sitesIn enclosing rest
  | _ :: rest => sitesIn enclosing rest

end

theorem sitesAll_eq (enclosing : Option String) (nodes : List Node) :
    sitesAll enclosing nodes = nodes.flatMap (sites enclosing) := by
  induction nodes with
  | nil => rfl
  | cons node rest ih => rw [sitesAll, ih, List.flatMap_cons]

/-! ### Types of definitions -/

def validName (scope : Option String) (name : String) : Bool :=
  isName name && scope.all fun inside => (inside.splitOn ".").all isName

/-- The valid namespace, bare name and full name of a definition. -/
def Head.valid? (head : Head) (enclosing : Option String) : Option (Option String × String × String) :=
  head.name.bind fun _ =>
    let names := head.names enclosing
    if validName names.1 names.2.1 then some names else none

def namesOf? : List (Option String) → Option (List String)
  | [] => some []
  | none :: _ => none
  | some symbol :: rest => if isName symbol then (namesOf? rest).map (symbol :: ·) else none

def Body.type? (scope : Option String) (name : String) : Body → Option Schema
  | .record _ fields => fields.map fun _ => .record ⟨name, scope, 0⟩
  | .enum symbols =>
    (symbols.bind namesOf?).bind fun symbols => (EnumType.new name scope symbols).toOption.map Schema.enum
  | .fixed size => size.map fun size => .fixed ⟨name, scope, size⟩

namespace Site

def names (site : Site) : Option String × String × String := site.head.names site.enclosing

def fullName (site : Site) : String := site.names.2.2

def isRecord (site : Site) : Bool :=
  match site.body with
  | .record .. => true
  | _ => false

def definition (site : Site) : Definition := ⟨site.fullName, site.isRecord⟩

/-- The type that is declared, without a place; none if the definition is refused. -/
def type? (site : Site) : Option Schema :=
  (site.head.valid? site.enclosing).bind fun names => site.body.type? names.1 names.2.1

def doc? (site : Site) : Option String :=
  match site.body with
  | .record doc _ => doc
  | _ => none

/-- The fields of a record, their types looked up in the namespace of the record. -/
def fieldTypes? (site : Site) (known : String → Option Schema) : Option (List FieldType) :=
  match site.body with
  | .record _ fields => (Node.fieldTypes known site.names.1 (fields.getD [])).bind FieldType.distinct?
  | _ => none

theorem fieldTypes?_record {enclosing : Option String} {head : Head} {doc : Option String}
    {fields : List Field} {known : String → Option Schema} :
    fieldTypes? ⟨enclosing, head, .record doc (some fields)⟩ known =
      (Node.fieldTypes known (head.names enclosing).1 fields).bind FieldType.distinct? := rfl

theorem fieldTypes?_unplaced (site : Site) (known : String → Option Schema) :
    site.fieldTypes? (unplacedTypes known) = (site.fieldTypes? known).map (·.map FieldType.unplaced) := by
  unfold fieldTypes?
  split
  · rw [fieldTypes_unplaced fun _ _ type _ => meaning_unplaced type]
    cases Node.fieldTypes known site.names.1 _ with
    | none => rfl
    | some types => exact FieldType.distinct?_unplaced types
  · rfl

end Site

theorem map_sitesAll {enclosing : Option String} {nodes : List Node}
    (each : ∀ node ∈ nodes, (node.sites enclosing).map Site.definition = node.definitions enclosing) :
    (sitesAll enclosing nodes).map Site.definition = definitionsAll enclosing nodes := by
  induction nodes with
  | nil => rfl
  | cons node rest ih =>
    rw [List.forall_mem_cons] at each
    rw [sitesAll, definitionsAll, List.map_append, each.1, ih each.2]

theorem map_sitesIn {enclosing : Option String} {fields : List Field}
    (each : ∀ field ∈ fields, ∀ type, field.type = some type →
      (type.sites enclosing).map Site.definition = type.definitions enclosing) :
    (sitesIn enclosing fields).map Site.definition = definitionsIn enclosing fields := by
  induction fields with
  | nil => rfl
  | cons field rest ih =>
    rw [List.forall_mem_cons] at each
    obtain ⟨isObject, label, type⟩ := field
    cases type with
    | none => exact ih each.2
    | some type => rw [sitesIn, definitionsIn, List.map_append, each.1 type rfl, ih each.2]

theorem map_sites (enclosing : Option String) (node : Node) :
    (node.sites enclosing).map Site.definition = node.definitions enclosing := by
  induction node using Node.induction generalizing enclosing with
  | union branches ih => exact map_sitesAll fun node member => ih node member enclosing
  | wrapped inner ih => exact ih enclosing
  | record head doc fields ih =>
    cases fields with
    | none => rfl
    | some fields =>
      rw [sites, definitions, List.map_cons,
        map_sitesIn fun field member type given => ih fields rfl field member type given _]
      rfl
  | array items ih =>
    cases items with
    | none => rfl
    | some items => exact ih items rfl enclosing
  | map values ih =>
    cases values with
    | none => rfl
    | some values => exact ih values rfl enclosing
  | name | foreign | untyped | enum | fixed | tagged => rfl

end Node

namespace Vocabulary

variable {α β : Type} {v v₁ v' : Vocabulary}

/-! ### Decisions -/

/-- The computation changes nothing. It gives the answer, and fails if there is none. -/
def Decides (p : Parsing α) (v : Vocabulary) (answer : Option α) : Prop :=
  Ends p v (fun a v' => v' = v ∧ answer = some a) fun _ => answer = none

namespace Decides

variable {p : Parsing α} {answer : Option α} {good : β → Vocabulary → Prop} {bad : Vocabulary → Prop}

theorem pure {a : α} : Decides (pure a) v (some a) := ⟨rfl, rfl⟩

theorem refuse {node : String} {cause : SchemaError.Cause} : Decides (refuse (α := α) node cause) v none := rfl

theorem require {node : String} {cause : SchemaError.Cause} {found : Option α} :
    Decides (require node cause found) v found := by
  cases found with
  | none => exact refuse
  | some a => exact pure

theorem bind {f : α → Parsing β} (first : Decides p v answer) (error : answer = none → ∀ v', bad v')
    (rest : ∀ a, answer = some a → Ends (f a) v good bad) : Ends (p >>= f) v good bad := by
  refine Ends.bind (first.mono (fun _ _ holds => holds) fun v' none => error none v') ?_
  rintro a _ ⟨rfl, given⟩
  exact rest a given

theorem andThen {f : α → Parsing β} {next : α → Option β} (first : Decides p v answer)
    (rest : ∀ a, answer = some a → Decides (f a) v (next a)) : Decides (p >>= f) v (answer.bind next) := by
  refine first.bind (fun none _ => by rw [none, Option.bind_none]) fun a given => ?_
  rw [given, Option.bind_some]
  exact rest a given

end Decides

theorem validateName_decides {node : String} {scope : Option String} {name : String} :
    Decides (validateName node scope name) v (if Node.validName scope name then some () else none) := by
  unfold validateName Node.validName
  dsimp only
  cases isName name with
  | false => exact Decides.refuse
  | true =>
    cases scope with
    | none => exact Decides.pure
    | some inside =>
      rw [Option.all_some, Bool.true_and]
      cases inner : (inside.splitOn ".").all isName with
      | false => simpa [inner] using Decides.refuse
      | true => simpa [inner] using Decides.pure

theorem validateName_bind {node : String} {scope : Option String} {name : String} {f : Unit → Parsing β}
    {good : β → Vocabulary → Prop} {bad : Vocabulary → Prop}
    (error : Node.validName scope name = false → ∀ v', bad v')
    (rest : Node.validName scope name = true → Ends (f ()) v good bad) :
    Ends (validateName node scope name >>= f) v good bad := by
  refine validateName_decides.bind (fun refused => error ?_) fun _ given => rest ?_
  · simpa using refused
  · simpa using given

theorem definitionName_decides {head : Node.Head} {enclosing : Option String} :
    Decides (definitionName head enclosing) v (head.valid? enclosing) := by
  unfold definitionName Node.Head.valid? Node.Head.names
  refine Decides.require.andThen fun raw given => ?_
  rw [given, Option.getD_some]
  generalize splitName raw head.scope enclosing = names
  obtain ⟨scope, name⟩ := names
  dsimp only
  refine validateName_bind (fun refused _ => ?_) fun valid => ?_
  · rw [if_neg (refused ▸ Bool.false_ne_true)]
  · rw [if_pos valid]
    exact Decides.pure

theorem validSymbols_decides {full : String} {symbols : List (Option String)} :
    Decides (validSymbols full symbols) v (Node.namesOf? symbols) := by
  induction symbols with
  | nil => exact Decides.pure
  | cons symbol rest ih =>
    rw [validSymbols]
    cases symbol with
    | none => exact Decides.refuse
    | some symbol =>
      have valid : Node.validName none symbol = isName symbol := Bool.and_true _
      rw [Node.namesOf?, ← valid]
      refine validateName_bind (fun refused _ => ?_) fun valid => ?_
      · rw [if_neg (refused ▸ Bool.false_ne_true)]
      · rw [if_pos valid]
        refine ih.bind (fun refused _ => ?_) fun names found => ?_
        · rw [refused]
          rfl
        · rw [found]
          exact Decides.pure

end Vocabulary

end TrackedRecord
