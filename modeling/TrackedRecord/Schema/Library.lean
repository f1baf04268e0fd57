import TrackedRecord.Files.Table
import TrackedRecord.Schema.Vocabulary

/-!
# Libraries of schemas

Schemas that are loaded from files or texts, with every named type in them. A path is that of a file or
of a directory, of which all files with the extension `json` are read in the order of their names. A
file holds one document or an array of documents; all files of a directory are one batch.
-/

namespace TrackedRecord

structure Library where
  vocabulary : Vocabulary := {}
  /-- The schemas in the order of loading. -/
  roots : List Schema := []

namespace Library

/-- Work on a library; what a refused batch has declared stays declared. -/
abbrev Loading := EStateM SchemaError Library

/-- What was loaded at once. -/
structure Batch where
  files : Nat
  schemas : Nat
  deriving DecidableEq, Repr

def hasExtension (name : String) : Bool := name.endsWith ".json" && name ≠ ".json"

def filesAt (table : Files.Table) (path : String) : List String :=
  if table.isDirectory path then
    ((table.namesIn path).filter hasExtension).map (Files.Table.join path)
  else [path]

def documentsOf : Json → List Json
  | .array items => items
  | json => [json]

section

-- What documents are read by.
variable (read : String → Except String Json)

/-- The documents of a text that stands at `node`. -/
def documentsOfText (node text : String) : Except SchemaError (List Json) :=
  match read text with
  | .ok json => .ok (documentsOf json)
  | .error reason => .error ⟨node, .notJson reason⟩

def documentsOfFile (table : Files.Table) (file : String) : Except SchemaError (List Json) :=
  match table.readText file with
  | .ok text => documentsOfText read file text
  | .error failure => .error ⟨file, .unreadable failure⟩

def documentsOfFiles (table : Files.Table) : List String → Except SchemaError (List Json)
  | [] => .ok []
  | file :: rest => do
    let first ← documentsOfFile read table file
    let others ← documentsOfFiles table rest
    return first ++ others

end

/-- Adds the schemas of a batch of documents; gives their number. -/
def addDocuments (documents : List Json) : Loading Nat := fun library =>
  match Vocabulary.parseDocuments documents library.vocabulary with
  | .ok schemas vocabulary => .ok schemas.length ⟨vocabulary, library.roots ++ schemas⟩
  | .error e vocabulary => .error e { library with vocabulary }

def addTextWith (read : String → Except String Json) (text : String) : Loading Nat := do
  match documentsOfText read "<in-memory>" text with
  | .ok documents => addDocuments documents
  | .error e => throw e

def addText (text : String) : Loading Nat := addTextWith Json.ofText text

def loadWith (read : String → Except String Json) (table : Files.Table) (path : String) : Loading Batch := do
  let files := filesAt table path
  match documentsOfFiles read table files with
  | .ok documents =>
    let schemas ← addDocuments documents
    return ⟨files.length, schemas⟩
  | .error e => throw e

def load (table : Files.Table) (path : String) : Loading Batch := loadWith Json.ofText table path

def addRoot (library : Library) (schema : Schema) : Library :=
  { library with roots := library.roots ++ [schema] }

end Library

end TrackedRecord
