import TrackedRecord.Command.Formats
import TrackedRecord.Proofs.Json.Written
import TrackedRecord.Proofs.Text.Base64
import TrackedRecord.Proofs.Wire.SettingsFile

/-!
# What formats promise

Commands rely on little of the formats that they run with. The standard formats keep it.
-/

namespace TrackedRecord.Command

open Wire (wordBound)

structure Formats.Lawful (formats : Formats) : Prop where
  /-- The members of an object are given in the order of their keys. -/
  sorted {text : String} {members : List (String × Json)} :
    formats.readJson text = .ok (.object members) → Keyed.Sorted members
  /-- What is written of a document stands for it, if any text does. -/
  written {json : Json} : json.Textual → Json.meaning (formats.writeJson json) = .ok json
  /-- A limit is a number of 64 bits. -/
  limits {text : String} {settings : Wire.Settings} :
    formats.readSettings text = .ok settings → settings.maxCollection < wordBound
  decoded (bytes : List UInt8) : formats.decodeBase64? (formats.encodeBase64 bytes) = some bytes
  empty : formats.decodeBase64? "" = some []
  solid (bytes : List UInt8) : ∀ c ∈ (formats.encodeBase64 bytes).toList, Text.isBlank c = false

theorem Formats.standard_lawful : Formats.standard.Lawful where
  sorted read := Json.ofText_sorted read
  written textual := by
    obtain ⟨held, ordered⟩ := Json.textual_iff.mp textual
    exact Json.meaning_indented held ordered
  limits read := Wire.Settings.ofText_lt read
  decoded := Base64.decode?_encode
  empty := rfl
  solid := Base64.encode_solid

end TrackedRecord.Command
