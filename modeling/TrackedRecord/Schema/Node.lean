import TrackedRecord.Json.Writer
import TrackedRecord.Schema.Error

/-!
# Schema documents

The syntax of a schema document before any name is bound. A node says what a JSON value is meant to
be; what a node lacks is told when it is used.
-/

namespace TrackedRecord

structure Node.Head where
  name : Option String
  scope : Option String
  deriving DecidableEq, Repr

/-- One entry of a field list. -/
structure Node.FieldOf (α : Type) where
  isObject : Bool
  name : Option String
  type : Option α

inductive Node where
  /-- A name by itself. -/
  | name (name : String)
  | union (branches : List Node)
  /-- A value that is no schema. -/
  | foreign (json : Json)
  /-- An object without a type. -/
  | untyped
  /-- An object whose type is again a schema. -/
  | wrapped (inner : Node)
  | record (head : Node.Head) (doc : Option String) (fields : Option (List (Node.FieldOf Node)))
  | enum (head : Node.Head) (symbols : Option (List (Option String)))
  | fixed (head : Node.Head) (size : Option Nat)
  | array (items : Option Node)
  | map (values : Option Node)
  /-- An object whose type is any other text. -/
  | tagged (tag : String)

namespace Node

abbrev Field := FieldOf Node

def textOf (key : String) (members : List (String × Json)) : Option String :=
  (Keyed.get? key members).bind Json.string?

def headOf (members : List (String × Json)) : Head := ⟨textOf "name" members, textOf "namespace" members⟩

def symbolsOf (members : List (String × Json)) : Option (List (Option String)) :=
  ((Keyed.get? "symbols" members).bind Json.array?).map (·.map Json.string?)

def sizeOf? (members : List (String × Json)) : Option Nat :=
  (Keyed.get? "size" members).bind Json.uint64?

mutual

def ofJson : Json → Node
  | .string s => .name s
  | .array items => .union (ofItems items)
  | .object members =>
    match textOf "type" members with
    | some tag =>
      if tag = "record" then .record (headOf members) (textOf "doc" members) (ofFields members)
      else if tag = "enum" then .enum (headOf members) (symbolsOf members)
      else if tag = "fixed" then .fixed (headOf members) (sizeOf? members)
      else if tag = "array" then .array (ofMember "items" members)
      else if tag = "map" then .map (ofMember "values" members)
      else .tagged tag
    | none =>
      match ofMember "type" members with
      | some inner => .wrapped inner
      | none => .untyped
  | json => .foreign json

def ofItems : List Json → List Node
  | [] => []
  | item :: rest => ofJson item :: ofItems rest

def ofMember (key : String) : List (String × Json) → Option Node
  | [] => none
  | (k, json) :: rest => if k = key then some (ofJson json) else ofMember key rest

/-- The entries of the member `fields`, if it is an array. -/
def ofFields : List (String × Json) → Option (List Field)
  | [] => none
  | (k, .array items) :: rest => if k = "fields" then some (ofFieldItems items) else ofFields rest
  | (k, _) :: rest => if k = "fields" then none else ofFields rest

def ofFieldItems : List Json → List Field
  | [] => []
  | .object members :: rest => ⟨true, textOf "name" members, ofMember "type" members⟩ :: ofFieldItems rest
  | _ :: rest => ⟨false, none, none⟩ :: ofFieldItems rest

end

end Node

end TrackedRecord
