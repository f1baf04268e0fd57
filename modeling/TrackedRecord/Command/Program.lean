import TrackedRecord.Command.Arguments
import TrackedRecord.Command.Run

/-!
# The program

A whole run: from the words of the command line, the input and the files to what is printed and the
exit code.
-/

namespace TrackedRecord.Command

structure Outcome where
  exitCode : UInt8
  output : String := ""
  /-- Journal lines and the error, each ended. -/
  messages : String := ""
  files : Files.Table

def versionText : String := "recordc 0.1.0\n"

def usageText : String := "usage: recordc [--log-level LEVEL] COMMAND
  compile --schema PATH
  generate --schema PATH [--out FILE]
  encode --schema PATH --record NAME [--config FILE] [--framed]
  decode --schema PATH --record NAME [--config FILE] [--framed]
"

/-- Runs a command; reports below the level are left out. -/
def performWith (formats : Formats) (files : Files.Table) (input : List UInt8) (level : String) (command : Command) : Outcome :=
  match Journal.Severity.ofName? level with
  | none => { exitCode := 1, messages := (CommandError.unknownLevel level).display ++ "\n", files }
  | some minimum =>
    let text (world : World) : String :=
      String.join ((Journal.lines minimum world.entries).map fun line => line ++ "\n")
    match runWith formats input command ⟨files, []⟩ with
    | .ok output world => { exitCode := 0, output, messages := text world, files := world.files }
    | .error e world =>
      { exitCode := 1, messages := text world ++ e.display ++ "\n", files := world.files }

def perform (files : Files.Table) (input : List UInt8) (level : String) (command : Command) : Outcome :=
  performWith .standard files input level command

def program (files : Files.Table) (words : List String) (input : List UInt8) : Outcome :=
  match Arguments.parse? words with
  | none => { exitCode := 2, messages := usageText, files }
  | some .version => { exitCode := 0, output := versionText, files }
  | some (.command level command) => perform files input level command

end TrackedRecord.Command
