import TrackedRecord.Schema.Vocabulary

/-!
# Induction over nodes, and the names they define

What holds of a node may be shown from what holds of the nodes in it. The names that a node defines are
known from its syntax alone: a definition inside a record takes the record's namespace.
-/

namespace TrackedRecord.Node

@[elab_as_elim]
theorem induction {P : Node → Prop} (name : ∀ name, P (.name name))
    (union : ∀ branches, (∀ branch ∈ branches, P branch) → P (.union branches))
    (foreign : ∀ json, P (.foreign json)) (untyped : P .untyped)
    (wrapped : ∀ inner, P inner → P (.wrapped inner))
    (record : ∀ head doc fields, (∀ entries, fields = some entries → ∀ entry ∈ entries, ∀ type,
      entry.type = some type → P type) → P (.record head doc fields))
    (enum : ∀ head symbols, P (.enum head symbols)) (fixed : ∀ head size, P (.fixed head size))
    (array : ∀ items, (∀ element, items = some element → P element) → P (.array items))
    (map : ∀ values, (∀ value, values = some value → P value) → P (.map values))
    (tagged : ∀ tag, P (.tagged tag)) (node : Node) : P node := by
  refine @Node.rec P (fun branches => ∀ branch ∈ branches, P branch)
    (fun fields => ∀ entries, fields = some entries → ∀ entry ∈ entries, ∀ type,
      entry.type = some type → P type)
    (fun node => ∀ inner, node = some inner → P inner)
    (fun entries => ∀ entry ∈ entries, ∀ type, entry.type = some type → P type)
    (fun entry => ∀ type, entry.type = some type → P type)
    name union foreign untyped wrapped record enum fixed array map tagged
    (fun _ member => nomatch member) ?branches (fun _ absent => nomatch absent)
    (fun _ each _ same => Option.some.inj same ▸ each) (fun _ absent => nomatch absent)
    (fun _ inner _ same => Option.some.inj same ▸ inner) (fun _ member => nomatch member) ?entries
    (fun _ _ _ type => type) node
  case branches | entries =>
    intro head tail first others node member
    rcases List.mem_cons.mp member with same | later
    · exact same ▸ first
    · exact others node later

/-! ### Definitions -/

/-- The namespace, the bare name and the full name of a definition; one without a name is refused. -/
def Head.names (head : Head) (enclosing : Option String) : Option String × String × String :=
  let (scope, name) := Vocabulary.splitName (head.name.getD "") head.scope enclosing
  (scope, name, Vocabulary.fullName scope name)

/-- What a node defines. -/
structure Definition where
  fullName : String
  isRecord : Bool
  deriving DecidableEq, Repr

def Head.definition (head : Head) (enclosing : Option String) (isRecord : Bool) : Definition :=
  ⟨(head.names enclosing).2.2, isRecord⟩

mutual

/-- The definitions in a node, in order. -/
def definitions (enclosing : Option String) : Node → List Definition
  | .union branches => definitionsAll enclosing branches
  | .wrapped inner => definitions enclosing inner
  | .record head _ none => [head.definition enclosing true]
  | .record head _ (some fields) =>
    head.definition enclosing true :: definitionsIn (head.names enclosing).1 fields
  | .enum head _ | .fixed head _ => [head.definition enclosing false]
  | .array (some items) => definitions enclosing items
  | .map (some values) => definitions enclosing values
  | _ => []

def definitionsAll (enclosing : Option String) : List Node → List Definition
  | [] => []
  | node :: rest => definitions enclosing node ++ definitionsAll enclosing rest

def definitionsIn (enclosing : Option String) : List Field → List Definition
  | [] => []
  | ⟨_, _, some type⟩ :: rest => definitions enclosing type ++ definitionsIn enclosing rest
  | _ :: rest => definitionsIn enclosing rest

end

end TrackedRecord.Node
