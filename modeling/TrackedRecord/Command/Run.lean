import TrackedRecord.Command.Basic
import TrackedRecord.Command.Formats
import TrackedRecord.Command.Summary
import TrackedRecord.Journal.Reports
import TrackedRecord.Source.Module
import TrackedRecord.Text.Blank
import TrackedRecord.Wire.SettingsFile

/-!
# Running commands

A command reads files and its input, may write a file, and gives the text to print. The settings are
read first, then the schemas, then the input.
-/

namespace TrackedRecord.Command

structure World where
  files : Files.Table
  entries : List Journal.Entry := []

abbrev Running := EStateM CommandError World

def report (entries : List Journal.Entry) : Running Unit :=
  modify fun world => { world with entries := world.entries ++ entries }

/-- The result, or its error as that of the command. -/
def attempt {ε α : Type} (wrap : ε → CommandError) : Except ε α → Running α
  | .ok a => return a
  | .error e => throw (wrap e)

section

variable (formats : Formats)

def printed (json : Json) : String := formats.writeJson json ++ "\n"

def loadTypes (schema : String) : Running Registry := do
  match Library.loadWith formats.readJson (← get).files schema {} with
  | .error e _ => throw (.schema e)
  | .ok batch library =>
    report [Journal.schemasLoaded schema batch]
    let result := Registry.compile library.vocabulary.catalog library.roots
    report (Journal.compiled library.roots result)
    attempt .schema result

def loadSettings : Option String → Running Wire.Settings
  | none => return {}
  | some path => do
    let settings ← attempt .codec (Wire.Settings.loadWith formats.readSettings (← get).files path)
    report [Journal.settingsLoaded path settings]
    return settings

def openCodec (target : Target) : Running Wire.Codec := do
  let settings ← loadSettings formats target.settings
  let registry ← loadTypes formats target.schema
  if (registry.get? target.record).isNone then
    throw (.unknownRecord target.record (registry.records.map fun record => record.layout.fullName))
  attempt .codec (Wire.Codec.new registry target.record settings)

def inputText (input : List UInt8) : Except CommandError String :=
  match Utf8.decode? input with
  | none => .error (.unreadable .notUtf8)
  | some text => if Text.trim text = "" then .error .emptyInput else .ok (Text.trim text)

def inputDocument (input : List UInt8) : Except CommandError Json := do
  let text ← inputText input
  match formats.readJson text with
  | .ok json => return json
  | .error reason => throw (.notJson reason)

def inputBytes (input : List UInt8) : Except CommandError (List UInt8) := do
  let text ← inputText input
  match formats.decodeBase64? text with
  | some bytes => return bytes
  | none => throw .notBase64

def runCompile (schema : String) : Running String := do
  let registry ← loadTypes formats schema
  return printed formats registry.summary

def runGenerate (schema : String) (out : Option String) : Running String := do
  let registry ← loadTypes formats schema
  let source := Source.moduleText registry
  report [Journal.sourceGenerated registry source]
  match out with
  | none => return source
  | some path =>
    let files ← attempt (.unwritable path) ((← get).files.write path (Utf8.encode source))
    modify fun world => { world with files }
    return printed formats (.ofMembers [("written", .string path), ("bytes", Json.nat source.utf8ByteSize),
      ("records", Json.nat registry.records.length)])

def runEncode (target : Target) (input : List UInt8) : Running String := do
  let codec ← openCodec formats target
  let json ← attempt id (inputDocument formats input)
  let r ← attempt .record (Document.recordOf codec.registry codec.compiled json)
  report (Journal.encoded codec r (codec.encode r))
  let bytes ← attempt .codec (if target.framed then codec.encodeFramed r else codec.encode r)
  return formats.encodeBase64 bytes ++ "\n"

def runDecode (target : Target) (input : List UInt8) : Running String := do
  let codec ← openCodec formats target
  let bytes ← attempt id (inputBytes formats input)
  if target.framed then
    let (result, _) := codec.decodeFramed bytes none
    report (Journal.framedDecoded codec bytes result)
    let (r, _) ← attempt .codec result
    return printed formats r.summary
  else
    let (result, _) := codec.decode bytes none
    report [Journal.decoded codec bytes.length result]
    let r ← attempt .codec result
    return printed formats r.summary

def runWith (input : List UInt8) : Command → Running String
  | .compile schema => runCompile formats schema
  | .generate schema out => runGenerate formats schema out
  | .encode target => runEncode formats target input
  | .decode target => runDecode formats target input

end

def run (input : List UInt8) (command : Command) : Running String := runWith .standard input command

end TrackedRecord.Command
