import TrackedRecord.Layout
import TrackedRecord.Text.Quoted

/-!
# Record errors

Why a record refuses an access, and why a JSON document is no value of a schema.
-/

namespace TrackedRecord

/-- What a JSON value lacks. -/
inductive Unfit where
  | notObject
  | notMap
  | notArray
  | notBytes
  | byteRange
  | notPrimitive (kind : Primitive)
  | notSymbol
  | unknownSymbol (symbol type : String)
  | fixedSize (type : String) (expected found : Nat)
  | notCompiled (type : String)
  | noNullBranch
  | notLabelled
  | unknownBranch (label schema : String)
  deriving DecidableEq, Repr

def Unfit.message : Unfit → String
  | .notObject => "expected a JSON object"
  | .notMap => "expected an object"
  | .notArray => "expected an array"
  | .notBytes => "expected an array of bytes"
  | .byteRange => "byte values must be in 0..=255"
  | .notPrimitive kind => s!"expected {kind.name}"
  | .notSymbol => "expected an enum symbol"
  | .unknownSymbol symbol type => "'" ++ symbol ++ "' is not a symbol of " ++ type
  | .fixedSize type expected found => s!"{type} expects {expected} bytes, got {found}"
  | .notCompiled type => s!"record type {type} is not compiled"
  | .noNullBranch => "union has no null branch"
  | .notLabelled => "expected \x7b\"<branch type>\": value\x7d"
  | .unknownBranch label schema => "'" ++ label ++ "' is not a branch of " ++ schema

/-- The last one is no error of the caller: a record of another layout with the same name has too few
slots. -/
inductive RecordError where
  | invalidIndex (record : String) (index count : Nat)
  | unknownField (record field : String)
  | wrongKind (record field : String) (kind required : FieldKind)
  | wrongType (field expected found : String)
  | otherRecord (expected found : String)
  | unfit (path : String) (cause : Unfit)
  | outOfRange (index count : Nat)
  deriving DecidableEq, Repr

namespace RecordError

def message : RecordError → String
  | .invalidIndex record index count => s!"field index {index} out of range for {record} ({count} fields)"
  | .unknownField record field => "unknown field '" ++ field ++ "' in " ++ record
  | .wrongKind record field kind required =>
    "field '" ++ field ++ s!"' of {record} is a {kind.name} field, operation requires {required.name}"
  | .wrongType field expected found =>
    s!"{found} value does not conform to {expected} for field '" ++ field ++ "'"
  | .otherRecord expected found => s!"record type mismatch: expected {expected}, found {found}"
  | .unfit path cause => s!"invalid JSON for {path}: {cause.message}"
  | .outOfRange index count => s!"index out of bounds: the len is {count} but the index is {index}"

def isLayout : RecordError → Bool
  | .invalidIndex .. | .unknownField .. | .otherRecord .. => true
  | _ => false

end RecordError

namespace Layout

def fieldAt (layout : Layout) (index : Nat) : Except RecordError Field :=
  match layout.field? index with
  | some field => .ok field
  | none => .error (.invalidIndex layout.fullName index layout.fieldCount)

def indexOf (layout : Layout) (name : String) : Except RecordError Nat :=
  match layout.indexOf? name with
  | some index => .ok index
  | none => .error (.unknownField layout.fullName name)

def fieldOfKind (layout : Layout) (index : Nat) (required : FieldKind) : Except RecordError Field := do
  let field ← layout.fieldAt index
  if field.kind = required then return field
  throw (.wrongKind layout.fullName field.name field.kind required)

def select (layout : Layout) (names : List String) : Except RecordError FieldBits := do
  let indices ← names.mapM layout.indexOf
  return indices.foldl FieldBits.set (FieldBits.new layout.fieldCount)

end Layout

end TrackedRecord
