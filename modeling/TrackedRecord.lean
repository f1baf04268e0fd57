import TrackedRecord.Text.LetterCase
import TrackedRecord.Text.Quoted
import TrackedRecord.Text.Blank
import TrackedRecord.Text.Hex
import TrackedRecord.Text.Base64
import TrackedRecord.Text.Utf8
import TrackedRecord.Decimal.Layout
import TrackedRecord.Json.Reader
import TrackedRecord.Json.Writer
import TrackedRecord.Wire.PackedBits
import TrackedRecord.Wire.Frame
import TrackedRecord.Schema.Vocabulary
import TrackedRecord.Value.Shown
import TrackedRecord.Value.Equality
import TrackedRecord.Registry
import TrackedRecord.Record.Document
import TrackedRecord.Wire.Plain.Reader
import TrackedRecord.Wire.Codec
import TrackedRecord.Files.Sink
import TrackedRecord.Journal.Reports
import TrackedRecord.Wire.SettingsFile
import TrackedRecord.Source.Module
import TrackedRecord.Command.Program
import TrackedRecord.Value.Snapshot
import TrackedRecord.Main
import TrackedRecord.Proofs.Wire.Prefix
import TrackedRecord.Proofs.Wire.Reuse
import TrackedRecord.Proofs.Wire.Canonical
import TrackedRecord.Proofs.Wire.Framed
import TrackedRecord.Proofs.Wire.Delta
import TrackedRecord.Proofs.Schema.Refused
import TrackedRecord.Proofs.Schema.Compiled
import TrackedRecord.Proofs.Schema.Order
import TrackedRecord.Proofs.Wire.Hidden
import TrackedRecord.Proofs.Wire.Written
import TrackedRecord.Proofs.Record.RoundTrip
import TrackedRecord.Proofs.Wire.Plain.SelfDelimiting
import TrackedRecord.Proofs.Wire.Joined
import TrackedRecord.Proofs.Wire.FrameStream
import TrackedRecord.Proofs.Wire.Nesting
import TrackedRecord.Proofs.Command.RoundTrip
import TrackedRecord.Proofs.Wire.Burst
import TrackedRecord.Proofs.Wire.FrameLength
import TrackedRecord.Proofs.Registry.Exact
import TrackedRecord.Proofs.Schema.WellFormed
import TrackedRecord.Proofs.Record.InPlace
import TrackedRecord.Proofs.Record.Conversion
import TrackedRecord.Proofs.Record.Reread
import TrackedRecord.Proofs.Wire.Slice.Foreign
import TrackedRecord.Proofs.Value.Hash
import TrackedRecord.Proofs.Source.Names
import TrackedRecord.Proofs.Source.Members
import TrackedRecord.Proofs.Source.Module
import TrackedRecord.Proofs.Wire.BitLayout
