import TrackedRecord.Json.Writer

/-!
# Journals

Lines about what was done, each with a severity, an event and fields. A journal has a minimum severity
and writes no line below it.
-/

namespace TrackedRecord.Journal

inductive Severity where
  | trace
  | info
  | warn
  | error
  | fatal
  deriving DecidableEq, Repr

namespace Severity

def all : List Severity := [.trace, .info, .warn, .error, .fatal]

def name : Severity → String
  | .trace => "TRACE"
  | .info => "INFO"
  | .warn => "WARN"
  | .error => "ERROR"
  | .fatal => "FATAL"

/-- The place in the order from the least severe to the most. -/
def rank : Severity → Nat
  | .trace => 0
  | .info => 1
  | .warn => 2
  | .error => 3
  | .fatal => 4

/-- The severity of a name, in letters of either case. -/
def ofName? (name : String) : Option Severity :=
  all.find? fun severity => severity.name.toList == name.toList.map Char.toUpper

end Severity

/-- The events of the library. -/
inductive Event where
  | schemaLoaded
  | compileBegin
  | compileComplete
  | sourceGenerated
  | configLoaded
  | recordEncoded
  | recordDecoded
  | decodeFailed
  | frameCorrupt
  deriving DecidableEq, Repr

namespace Event

def all : List Event := [.schemaLoaded, .compileBegin, .compileComplete, .sourceGenerated, .configLoaded,
  .recordEncoded, .recordDecoded, .decodeFailed, .frameCorrupt]

def name : Event → String
  | .schemaLoaded => "SCHEMA_LOADED"
  | .compileBegin => "COMPILE_BEGIN"
  | .compileComplete => "COMPILE_COMPLETE"
  | .sourceGenerated => "SOURCE_GENERATED"
  | .configLoaded => "CONFIG_LOADED"
  | .recordEncoded => "RECORD_ENCODED"
  | .recordDecoded => "RECORD_DECODED"
  | .decodeFailed => "DECODE_FAILED"
  | .frameCorrupt => "FRAME_CORRUPT"

def severity : Event → Severity
  | .recordEncoded | .recordDecoded => .trace
  | .decodeFailed => .warn
  | .frameCorrupt => .error
  | _ => .info

end Event

structure Entry where
  severity : Severity
  event : String
  fields : List (String × String) := []
  deriving DecidableEq, Repr

namespace Entry

def ofEvent (event : Event) (fields : List (String × String)) : Entry :=
  ⟨event.severity, event.name, fields⟩

/-- Inserts a field behind those whose keys are not greater. -/
def insertField (field : String × String) : List (String × String) → List (String × String)
  | [] => [field]
  | other :: rest =>
    if field.1 < other.1 then field :: other :: rest else other :: insertField field rest

/-- Fields in the order of their keys; fields of one key keep their order. -/
def sortFields (fields : List (String × String)) : List (String × String) :=
  fields.foldl (fun sorted field => insertField field sorted) []

/-- The line of an entry: an object with the event, the severity and the fields. -/
def line (entry : Entry) : String :=
  let text (field : String × String) : String :=
    "," ++ Json.quote field.1 ++ ":" ++ Json.quote field.2
  "\x7b\"event\":" ++ Json.quote entry.event ++ ",\"severity\":\"" ++ entry.severity.name ++ "\"" ++
    String.join ((sortFields entry.fields).map text) ++ "\x7d"

end Entry

/-- Whether lines of a severity are written. -/
def enabled (minimum severity : Severity) : Bool := minimum.rank ≤ severity.rank

def lines (minimum : Severity) (entries : List Entry) : List String :=
  (entries.filter fun entry => enabled minimum entry.severity).map Entry.line

end TrackedRecord.Journal
