import TrackedRecord.Files.Failure
import TrackedRecord.Text.Hex
import TrackedRecord.Text.Quoted

/-!
# Errors of the wire format

What can be wrong with encoded bytes, with a value to encode or with the settings. An error has a
kind, a cause, the path of fields and elements that led to it and the byte at which it was found.
-/

namespace TrackedRecord.Wire

/-- The classes of errors that callers tell apart. `fault` is no error of the input: a record whose
layout differs from the expected one has no slot or field where one is looked for. -/
inductive Kind where
  | schemaMismatch
  | truncated
  | malformed
  | valueMismatch
  | corruption
  | invalidSettings
  | transfer
  | fault
  deriving DecidableEq, Repr

def Kind.code : Kind → String
  | .schemaMismatch => "REC_CODEC_SCHEMA_MISMATCH"
  | .truncated => "REC_CODEC_TRUNCATED_STREAM"
  | .malformed => "REC_CODEC_MALFORMED_PAYLOAD"
  | .valueMismatch => "REC_CODEC_VALUE_MISMATCH"
  | .corruption => "REC_CODEC_CORRUPTION"
  | .invalidSettings => "REC_CODEC_INVALID_CONFIG"
  | .transfer => "REC_CODEC_IO_ERROR"
  | .fault => "REC_CODEC_FAULT"

/-- Whether such an error is raised while bytes are read. -/
def Kind.isDecoding : Kind → Bool
  | .schemaMismatch | .truncated | .malformed | .corruption => true
  | _ => false

inductive Cause where
  | missingBytes (needed : Nat)
  | varintOverflow
  | varintTooLong
  | countLimit (count limit : Nat)
  | lengthLimit (length limit : Nat)
  | booleanByte (byte : UInt8)
  | stringNotUtf8
  | paddingBit
  | enumOrdinal (ordinal : Nat) (type : String)
  | unionBranch (branch : Nat) (schema : String)
  | nesting (maxDepth : Nat)
  | duplicateKey (key : String)
  | stateTag (tag : UInt8)
  | duplicateState
  | statesForNull
  | trailingBytes (count : Nat)
  | fixedSize (type : String) (expected found : Nat)
  | recordType (expected found : String)
  | shape (expected found : String)
  | notCompiled (type : String)
  | bitmapLength (which : String) (bits : Nat) (type : String) (fields : Nat)
  | codecType (expected found : String)
  | frameType (found expected : String)
  | checksum (computed stored : BitVec 32)
  | frameLength (length : Nat)
  | sectionLimit (length limit : Nat)
  | sectionOverrun
  | frameTypeNotUtf8
  | beforeChecksum (count : Nat)
  | notPositive (setting : String)
  | beyond32Bits (setting : String)
  | settingsText (path reason : String)
  | settingsFile (path : String)
  | sink
  | source
  | outOfRange (index count : Nat)
  | stated (text : String)
  deriving DecidableEq, Repr

def Cause.message : Cause → String
  | .missingBytes needed => s!"stream ended, {needed} more bytes expected"
  | .varintOverflow => "varint overflows 64 bits"
  | .varintTooLong => "varint longer than 10 bytes"
  | .countLimit count limit => s!"count {count} exceeds limit {limit}"
  | .lengthLimit length limit => s!"length {length} exceeds limit {limit}"
  | .booleanByte byte => "invalid boolean byte 0x" ++ Text.hex 2 byte.toNat
  | .stringNotUtf8 => "string is not valid UTF-8"
  | .paddingBit => "padding bit set in packed-bit array"
  | .enumOrdinal ordinal type => s!"enum ordinal {ordinal} out of range for {type}"
  | .unionBranch branch schema => s!"union branch {branch} out of range for {schema}"
  | .nesting maxDepth => s!"nesting exceeds max_depth {maxDepth}"
  | .duplicateKey key => "duplicate map key " ++ Text.quoted key
  | .stateTag tag => s!"invalid entry state tag {tag}"
  | .duplicateState => "duplicate key in entry state table"
  | .statesForNull => "entry states present for a null map"
  | .trailingBytes count => s!"{count} trailing bytes after record"
  | .fixedSize type expected found => s!"{type} expects {expected} bytes, got {found}"
  | .recordType expected found => s!"expected record {expected}, found {found}"
  | .shape expected found => s!"expected {expected}, found {found}"
  | .notCompiled type => s!"record type {type} is not compiled"
  | .bitmapLength which bits type fields => s!"{which} bitmap has {bits} bits, {type} has {fields} fields"
  | .codecType expected found => s!"codec for {expected} cannot process {found}"
  | .frameType found expected => s!"frame holds {found}, expected {expected}"
  | .checksum computed stored =>
    "checksum mismatch: computed " ++ Text.hex 8 computed.toNat ++ ", stored " ++ Text.hex 8 stored.toNat
  | .frameLength length => s!"invalid frame length: {length}"
  | .sectionLimit length limit => s!"section length {length} exceeds limit {limit}"
  | .sectionOverrun => "section overruns frame"
  | .frameTypeNotUtf8 => "type name is not valid UTF-8"
  | .beforeChecksum count => s!"{count} unexpected bytes before checksum"
  | .notPositive setting => s!"{setting} must be positive"
  | .beyond32Bits setting => s!"{setting} must fit in 32 bits"
  | .settingsText path reason => s!"{path}: {reason}"
  | .settingsFile path => s!"cannot read config {path}"
  | .sink => "cannot write encoded record"
  | .source => "cannot read encoded record"
  | .outOfRange index count => s!"index out of bounds: the len is {count} but the index is {index}"
  | .stated text => text

structure Error where
  kind : Kind
  cause : Cause
  /-- The fields and elements around the cause, outermost first. -/
  path : List String := []
  offset : Option Nat := none
  failure : Option Files.Failure := none
  deriving DecidableEq, Repr

namespace Error

def schemaMismatch (cause : Cause) : Error := { kind := .schemaMismatch, cause }

/-- The input ended at `offset` where `needed` more bytes were expected. -/
def truncated (offset needed : Nat) : Error :=
  { kind := .truncated, cause := .missingBytes needed, offset := some offset }

def malformed (offset : Nat) (cause : Cause) : Error := { kind := .malformed, cause, offset := some offset }

def valueMismatch (cause : Cause) : Error := { kind := .valueMismatch, cause }

def corruption (cause : Cause) : Error := { kind := .corruption, cause }

def invalidSettings (cause : Cause) : Error := { kind := .invalidSettings, cause }

def transfer (cause : Cause) (failure : Files.Failure) : Error :=
  { kind := .transfer, cause, failure := some failure }

/-- No slot or field number `index` among `count`. -/
def outOfRange (index count : Nat) : Error := { kind := .fault, cause := .outOfRange index count }

def atByte (e : Error) (offset : Nat) : Error := { e with offset := some offset }

/-- The error inside a field or an element. -/
def within (segment : String) (e : Error) : Error := { e with path := segment :: e.path }

def message (e : Error) : String := e.path.foldr (fun segment text => s!"{segment}: {text}") e.cause.message

def display (e : Error) : String :=
  s!"[ERROR] {e.kind.code}: {e.message}" ++
    (match e.offset with | some offset => s!" (at byte {offset})" | none => "") ++
    (match e.failure with | some failure => s!" (caused by: {failure.message})" | none => "")

end Error

end TrackedRecord.Wire
