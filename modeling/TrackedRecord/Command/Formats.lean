import TrackedRecord.Json.Writer
import TrackedRecord.Text.Base64
import TrackedRecord.Wire.Settings

/-!
# Text formats

What commands read and write texts by: documents and settings in JSON, bytes in Base64. A command runs with any
formats, the program with the standard ones.
-/

namespace TrackedRecord.Command

structure Formats where
  /-- The document of a text, or what is wrong with the text. -/
  readJson : String → Except String Json
  /-- The text of a document, with one item or member a line. -/
  writeJson : Json → String
  readSettings : String → Except String Wire.Settings
  encodeBase64 : List UInt8 → String
  decodeBase64? : String → Option (List UInt8)

def Formats.standard : Formats where
  readJson := Json.ofText
  writeJson := Json.indented
  readSettings := Wire.Settings.ofText
  encodeBase64 := Base64.encode
  decodeBase64? := Base64.decode?

end TrackedRecord.Command
