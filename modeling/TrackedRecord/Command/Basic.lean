import TrackedRecord.Record.Error
import TrackedRecord.Schema.Error
import TrackedRecord.Wire.Error

/-!
# Commands

What can be asked of the program, and why it fails.
-/

namespace TrackedRecord

/-- The types and the settings that records are encoded and decoded by. -/
structure Command.Target where
  schema : String
  record : String
  settings : Option String := none
  framed : Bool := false
  deriving DecidableEq, Repr

/-- Paths are those of files or, for schemas, of directories too. -/
inductive Command where
  /-- Prints a summary of the types. -/
  | compile (schema : String)
  /-- Writes source for the types, or prints it. -/
  | generate (schema : String) (out : Option String)
  /-- Prints the Base64 form of the record that a JSON document stands for. -/
  | encode (target : Command.Target)
  /-- Prints a summary of the record whose Base64 form is given. -/
  | decode (target : Command.Target)
  deriving DecidableEq, Repr

namespace Command

def sources : Command → List String
  | .compile schema => [schema]
  | .generate schema _ => [schema]
  | .encode target => target.schema :: target.settings.toList
  | .decode target => target.schema :: target.settings.toList

def destination? : Command → Option String
  | .generate _ out => out
  | _ => none

def hasInput : Command → Bool
  | .encode _ => true
  | .decode _ => true
  | _ => false

end Command

inductive CommandError where
  | schema (e : SchemaError)
  | codec (e : Wire.Error)
  | record (e : RecordError)
  | unknownLevel (name : String)
  | unknownRecord (name : String) (known : List String)
  | unreadable (failure : Files.Failure)
  | emptyInput
  | notJson (reason : String)
  | notBase64
  | unwritable (path : String) (failure : Files.Failure)
  deriving DecidableEq, Repr

namespace CommandError

def code : CommandError → String
  | .schema _ => "REC_CLI_SCHEMA_ERROR"
  | .codec _ => "REC_CLI_CODEC_ERROR"
  | .record _ => "REC_CLI_RECORD_ERROR"
  | .unknownLevel _ | .unknownRecord .. => "REC_CLI_USAGE_ERROR"
  | _ => "REC_CLI_IO_ERROR"

def message : CommandError → String
  | .schema e => e.display
  | .codec e => e.display
  | .record e => e.message
  | .unknownLevel name => "unknown log level '" ++ name ++ "'"
  | .unknownRecord name known =>
    "unknown record type '" ++ name ++ "' (known: " ++ ", ".intercalate known ++ ")"
  | .unreadable failure => failure.message
  | .emptyInput => "Empty input"
  | .notJson reason => s!"JSON error: {reason}"
  | .notBase64 => "invalid base64 input: not the canonical form of any bytes"
  | .unwritable path failure => s!"cannot write {path}: {failure.message}"

def display (e : CommandError) : String := s!"{e.code}: {e.message}"

end CommandError

end TrackedRecord
