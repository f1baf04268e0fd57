import TrackedRecord.Command.Basic

/-!
# Arguments

The words of a command line: options with values, flags and the name of a command. An option stands as
`--name value` or `--name=value` and comes at most once; a value may not look like an option.
-/

namespace TrackedRecord.Command

inductive Request where
  | version
  /-- A command, with the name of the least severity that is reported. -/
  | command (level : String) (command : Command)
  deriving DecidableEq, Repr

def Request.command? : Request → Option Command
  | .version => none
  | .command _ asked => some asked

namespace Arguments

structure Given where
  values : List (String × String) := []
  flags : List String := []
  deriving DecidableEq, Repr

/-- Whether a word starts with a hyphen and is more than that. -/
def looksLikeOption (word : String) : Bool :=
  match word.toList with
  | '-' :: _ :: _ => true
  | _ => false

/-- The name of a long option and the value behind its equals sign. -/
def long? (word : String) : Option (String × Option String) :=
  match word.toList with
  | '-' :: '-' :: c :: cs =>
    match (c :: cs).span (· != '=') with
    | (name, _ :: value) => some (String.ofList name, some (String.ofList value))
    | (name, []) => some (String.ofList name, none)
  | _ => none

def Given.addValue? (given : Given) (name value : String) : Option Given :=
  if (given.values.lookup name).isSome then none
  else some { given with values := (name, value) :: given.values }

def Given.addFlag? (given : Given) (name : String) : Option Given :=
  if given.flags.contains name then none else some { given with flags := name :: given.flags }

/-- Reads options up to the first word that is none of them; gives also the words from there on. There
is no result if an option comes twice or lacks its value, or if a flag has one. -/
def readOptions (valued flags : List String) (given : Given) :
    List String → Option (Given × List String)
  | [] => some (given, [])
  | word :: rest =>
    match long? word with
    | none => some (given, word :: rest)
    | some (name, some value) =>
      if valued.contains name then do
        let given ← given.addValue? name value
        readOptions valued flags given rest
      else if flags.contains name then none
      else some (given, word :: rest)
    | some (name, none) =>
      if valued.contains name then
        match rest with
        | value :: rest =>
          if looksLikeOption value then none
          else do
            let given ← given.addValue? name value
            readOptions valued flags given rest
        | [] => none
      else if flags.contains name then do
        let given ← given.addFlag? name
        readOptions valued flags given rest
      else some (given, word :: rest)

/-- A path that is there and not empty. -/
def Given.path? (given : Given) (name : String) : Option String :=
  (given.values.lookup name).filter (· ≠ "")

/-- A path that may be missing, but not empty. -/
def Given.optionalPath? (given : Given) (name : String) : Option (Option String) :=
  match given.values.lookup name with
  | none => some none
  | some path => if path = "" then none else some (some path)

def Given.target? (given : Given) : Option Target := do
  let schema ← given.path? "schema"
  let record ← given.values.lookup "record"
  let settings ← given.optionalPath? "config"
  return { schema, record, settings, framed := given.flags.contains "framed" }

def optionsOf? (name : String) : Option (List String × List String) :=
  if name = "compile" then some (["schema"], [])
  else if name = "generate" then some (["schema", "out"], [])
  else if name = "encode" || name = "decode" then some (["schema", "record", "config"], ["framed"])
  else none

def commandOf? (name : String) (given : Given) : Option Command :=
  if name = "compile" then return .compile (← given.path? "schema")
  else if name = "generate" then return .generate (← given.path? "schema") (← given.optionalPath? "out")
  else if name = "encode" then return .encode (← given.target?)
  else if name = "decode" then return .decode (← given.target?)
  else none

def levelOption : String := "log-level"

/-- The level behind the command counts before the one in front of it. -/
def levelOf (before behind : Given) : String :=
  ((behind.values.lookup levelOption).or (before.values.lookup levelOption)).getD "info"

/-- Whether a word asks for the version. A word of one-letter options does so by its first letter, whatever
comes after it. -/
def asksVersion (word : String) : Bool := word = "--version" || word.startsWith "-V"

/-- What a command line asks for, or nothing if it is malformed. -/
def parse? (words : List String) : Option Request := do
  let (before, rest) ← readOptions [levelOption] [] {} words
  match rest with
  | [] => none
  | name :: words =>
    if asksVersion name then return .version
    let (valued, flags) ← optionsOf? name
    let (behind, rest) ← readOptions (levelOption :: valued) flags {} words
    if rest = [] || rest = ["--"] then
      let command ← commandOf? name behind
      return .command (levelOf before behind) command
    else none

end Arguments

end TrackedRecord.Command
