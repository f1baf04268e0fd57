import TrackedRecord.Files.Failure
import TrackedRecord.Schema.Basic

/-!
# Schema errors

Why schema documents are refused, with the schema node or the file at fault.
-/

namespace TrackedRecord

namespace SchemaError

inductive Cause where
  | unreadable (failure : Files.Failure)
  | notJson (reason : String)
  | notASchema (json : String)
  | untyped
  | missingAttribute (key : String)
  | invalidName (name : String)
  | invalidNamespace (scope : String)
  | redefined
  | undefinedType (name : String)
  | recordWithoutFields
  | fieldNotObject
  | fieldWithoutType (field : String)
  | duplicateField (field : String)
  | definedTwice
  | neverDefined
  | enumWithoutSymbols
  | emptyEnum
  | symbolNotString
  | duplicateSymbol (symbol : String)
  | fixedWithoutSize
  | arrayWithoutItems
  | mapWithoutValues
  | emptyUnion
  | duplicateBranch (label : String)
  | unsupported (type : String)
  | stated (text : String)
  deriving DecidableEq, Repr

def Cause.code : Cause → String
  | .unreadable _ => "REC_SCHEMA_IO_ERROR"
  | .duplicateField _ => "REC_SCHEMA_DUPLICATE_FIELD"
  | .unsupported _ => "REC_SCHEMA_UNSUPPORTED_TYPE"
  | _ => "REC_SCHEMA_MALFORMED"

/-- Whether compilation has to stop; an unreadable file leaves room for another one. -/
def Cause.isFatal : Cause → Bool
  | .unreadable _ => false
  | _ => true

def Cause.message : Cause → String
  | .unreadable failure => s!"failed to read schema: {failure.message}"
  | .notJson reason => s!"invalid JSON: {reason}"
  | .notASchema json => s!"expected a schema, found {json}"
  | .untyped => "schema object requires a 'type'"
  | .missingAttribute key => "missing string attribute '" ++ key ++ "'"
  | .invalidName name => "invalid name '" ++ name ++ "'"
  | .invalidNamespace scope => "invalid namespace '" ++ scope ++ "'"
  | .redefined => "named type defined more than once"
  | .undefinedType name => "undefined type '" ++ name ++ "'"
  | .recordWithoutFields => "record requires a 'fields' array"
  | .fieldNotObject => "field must be an object"
  | .fieldWithoutType field => "field '" ++ field ++ "' has no type"
  | .duplicateField field => "field '" ++ field ++ "' declared more than once"
  | .definedTwice => "record fields defined twice"
  | .neverDefined => "record declared but never defined"
  | .enumWithoutSymbols => "enum requires a 'symbols' array"
  | .emptyEnum => "enum must declare at least one symbol"
  | .symbolNotString => "enum symbols must be strings"
  | .duplicateSymbol symbol => "duplicate enum symbol '" ++ symbol ++ "'"
  | .fixedWithoutSize => "fixed requires a non-negative 'size'"
  | .arrayWithoutItems => "array requires 'items'"
  | .mapWithoutValues => "map requires 'values'"
  | .emptyUnion => "union must have at least one branch"
  | .duplicateBranch label => "union declares branch '" ++ label ++ "' more than once"
  | .unsupported type => "unsupported schema type '" ++ type ++ "'"
  | .stated text => text

end SchemaError

structure SchemaError where
  node : String
  cause : SchemaError.Cause
  deriving DecidableEq, Repr

namespace SchemaError

def severity (e : SchemaError) : String := if e.cause.isFatal then "FATAL" else "ERROR"

def display (e : SchemaError) : String :=
  s!"[{e.severity}] {e.cause.code}: {e.cause.message} (at {e.node})"

end SchemaError

end TrackedRecord
