import TrackedRecord.Json.Reader
import TrackedRecord.Schema.Catalog
import TrackedRecord.Schema.Node

/-!
# Vocabularies

The named types of schema documents. A batch of documents is read in two passes: the first declares
every record, enum and fixed type in it, the second resolves every node, so that names may be used
before their definition and across the documents of a batch. Types stay known for later batches.
-/

namespace TrackedRecord

structure Vocabulary where
  catalog : Catalog := {}
  named : List (String × Schema) := []

namespace Vocabulary

/-- Work on a vocabulary; what was declared before a failure stays declared. -/
abbrev Parsing := EStateM SchemaError Vocabulary

def refuse {α : Type} (node : String) (cause : SchemaError.Cause) : Parsing α := throw ⟨node, cause⟩

def require {α : Type} (node : String) (cause : SchemaError.Cause) : Option α → Parsing α
  | some a => pure a
  | none => refuse node cause

/-! ### Names -/

def isNameStart (c : Char) : Bool := c.isAlpha || c = '_'

/-- A letter or an underscore, then letters, digits and underscores, all of ASCII. -/
def isName (name : String) : Bool :=
  match name.toList with
  | [] => false
  | c :: rest => isNameStart c && rest.all fun c => isNameStart c || c.isDigit

/-- The text before the last point and the text behind it. -/
def splitAtLastPoint (name : String) : Option (String × String) :=
  let (last, before) := name.toList.reverse.span (· != '.')
  match before with
  | [] => none
  | _ :: before => some (String.ofList before.reverse, String.ofList last.reverse)

/-- The namespace and the bare name of a definition. A name with points carries its namespace, any
other takes the namespace given beside it or else the enclosing one. -/
def splitName (name : String) (given enclosing : Option String) : Option String × String :=
  match splitAtLastPoint name with
  | some (scope, bare) => (some scope, bare)
  | none => ((given.or enclosing).filter (· != ""), name)

def fullName (scope : Option String) (name : String) : String :=
  match scope with
  | some scope => scope ++ "." ++ name
  | none => name

/-- Refuses a bare name or a namespace that is not made of names. -/
def validateName (node : String) (scope : Option String) (name : String) : Parsing Unit := do
  unless isName name do refuse node (.invalidName name)
  match scope with
  | some scope => unless (scope.splitOn ".").all isName do refuse node (.invalidNamespace scope)
  | none => return

/-! ### Declaring -/

def register (full : String) (schema : Schema) : Parsing Unit := do
  let v ← get
  if Keyed.contains full v.named then refuse full .redefined
  set { v with named := Keyed.put full schema v.named }

def registerRecord (full name : String) (scope doc : Option String) : Parsing Unit := do
  let v ← get
  if Keyed.contains full v.named then refuse full .redefined
  let (r, catalog) := v.catalog.declare name scope doc
  set ({ catalog, named := Keyed.put full (.record r) v.named } : Vocabulary)

/-- The valid namespace, bare name and full name of a definition. -/
def definitionName (head : Node.Head) (enclosing : Option String) :
    Parsing (Option String × String × String) := do
  let raw ← require "<anonymous>" (.missingAttribute "name") head.name
  let (scope, name) := splitName raw head.scope enclosing
  let full := fullName scope name
  validateName full scope name
  return (scope, name, full)

/-- The symbols of an enum, each a text and a name. -/
def validSymbols (full : String) : List (Option String) → Parsing (List String)
  | [] => return []
  | symbol :: rest => do
    let symbol ← require full .symbolNotString symbol
    validateName full none symbol
    let rest ← validSymbols full rest
    return symbol :: rest

def declareEnum (head : Node.Head) (enclosing : Option String) (symbols : Option (List (Option String))) :
    Parsing Unit := do
  let (scope, name, full) ← definitionName head enclosing
  let symbols ← require full .enumWithoutSymbols symbols
  let symbols ← validSymbols full symbols
  match EnumType.new name scope symbols with
  | .ok e => register full (.enum e)
  | .error e => throw e

def declareFixed (head : Node.Head) (enclosing : Option String) (size : Option Nat) : Parsing Unit := do
  let (scope, name, full) ← definitionName head enclosing
  let size ← require full .fixedWithoutSize size
  register full (.fixed ⟨name, scope, size⟩)

mutual

def declare (enclosing : Option String) : Node → Parsing Unit
  | .union branches => declareAll enclosing branches
  | .wrapped inner => declare enclosing inner
  | .record head doc fields => do
    let (scope, name, full) ← definitionName head enclosing
    registerRecord full name scope doc
    match fields with
    | some fields => declareFields scope fields
    | none => refuse full .recordWithoutFields
  | .enum head symbols => declareEnum head enclosing symbols
  | .fixed head size => declareFixed head enclosing size
  | .array (some items) => declare enclosing items
  | .map (some values) => declare enclosing values
  | _ => return

def declareAll (enclosing : Option String) : List Node → Parsing Unit
  | [] => return
  | node :: rest => do
    declare enclosing node
    declareAll enclosing rest

def declareFields (enclosing : Option String) : List Node.Field → Parsing Unit
  | [] => return
  | ⟨_, _, some type⟩ :: rest => do
    declare enclosing type
    declareFields enclosing rest
  | _ :: rest => declareFields enclosing rest

end

/-! ### Resolving -/

/-- The type that a reference names. Without a point it is looked for in the namespace first. -/
def lookup? (v : Vocabulary) (reference : String) (scope : Option String) : Option Schema :=
  let local? := if reference.contains '.' then none
    else scope.bind fun scope => Keyed.get? (fullName (some scope) reference) v.named
  local?.or (Keyed.get? reference v.named)

def resolveName (scope : Option String) (name : String) : Parsing (Option Schema) := do
  match Primitive.ofName? name with
  | some kind => return some (.primitive kind)
  | none => return (← get).lookup? name scope

/-- The declared type of a definition, with its namespace and full name. -/
def declared (head : Node.Head) (enclosing : Option String) (context : String) :
    Parsing (Schema × Option String × String) := do
  let raw ← require context (.missingAttribute "name") head.name
  let (scope, name) := splitName raw head.scope enclosing
  let full := fullName scope name
  let schema ← require context (.undefinedType full) (Keyed.get? full (← get).named)
  return (schema, scope, full)

/-- Adds a branch to those of a union, the latest first. -/
def addBranch (context : String) (before : List Schema) (branch : Schema) : Parsing (List Schema) := do
  if branch.isUnion then refuse context (.unsupported "union nested in union")
  if before.any fun b => b.typeName == branch.typeName then
    refuse context (.duplicateBranch branch.typeName)
  return branch :: before

mutual

/-- The schema of a node. Records get their fields where their definition stands. -/
def resolve (scope : Option String) (context : String) : Node → Parsing Schema
  | .name name => do
    let found ← resolveName scope name
    require context (.undefinedType name) found
  | .union branches => do
    if branches.isEmpty then refuse context .emptyUnion
    resolveBranches scope context [] branches
  | .foreign json => refuse context (.notASchema json.compact)
  | .untyped => refuse context .untyped
  | .wrapped inner => resolve scope context inner
  | .record head _ fields => do
    let (schema, inner, full) ← declared head scope context
    match schema with
    | .record r =>
      if (← get).catalog.isDefined r then return schema
      let resolved ← match fields with
        | some fields => resolveFields inner full fields
        | none => pure []
      let v ← get
      match v.catalog.define r resolved with
      | .ok catalog => set { v with catalog }
      | .error e => throw e
      return schema
    | _ => return schema
  | .enum head _ => do
    let (schema, _, _) ← declared head scope context
    return schema
  | .fixed head _ => do
    let (schema, _, _) ← declared head scope context
    return schema
  | .array items => match items with
    | some items => do
      let element ← resolve scope context items
      return .array element
    | none => refuse context .arrayWithoutItems
  | .map values => match values with
    | some values => do
      let value ← resolve scope context values
      return .map value
    | none => refuse context .mapWithoutValues
  | .tagged tag => do
    let found ← resolveName scope tag
    require context (.unsupported tag) found

/-- A union of the branches in `before`, the latest first, and those of the nodes. -/
def resolveBranches (scope : Option String) (context : String) (before : List Schema) :
    List Node → Parsing Schema
  | [] => return .union before.reverse
  | node :: rest => do
    let branch ← resolve scope context node
    let before ← addBranch context before branch
    resolveBranches scope context before rest

def resolveFields (scope : Option String) (full : String) : List Node.Field → Parsing (List FieldType)
  | [] => return []
  | ⟨isObject, name, type⟩ :: rest => do
    unless isObject do refuse full .fieldNotObject
    let name ← require full (.missingAttribute "name") name
    validateName full none name
    let schema ← match type with
      | some type => resolve scope (full ++ "." ++ name) type
      | none => refuse full (.fieldWithoutType name)
    let rest ← resolveFields scope full rest
    return ⟨name, schema⟩ :: rest

end

def resolveAll : List Node → Parsing (List Schema)
  | [] => return []
  | node :: rest => do
    let schema ← resolve none "<root>" node
    let rest ← resolveAll rest
    return schema :: rest

def parseNodes (nodes : List Node) : Parsing (List Schema) := do
  declareAll none nodes
  resolveAll nodes

def parseDocuments (documents : List Json) : Parsing (List Schema) := parseNodes (documents.map Node.ofJson)

/-- Parses the document that `read` gives for a text. -/
def parseTextWith (read : String → Except String Json) (text : String) : Parsing Schema := do
  match read text with
  | .error reason => refuse "<input>" (.notJson reason)
  | .ok json =>
    let node := Node.ofJson json
    declare none node
    resolve none "<root>" node

def parseText (text : String) : Parsing Schema := parseTextWith Json.ofText text

def named? (v : Vocabulary) (full : String) : Option Schema := Keyed.get? full v.named

def size (v : Vocabulary) : Nat := v.named.length

end Vocabulary

end TrackedRecord
