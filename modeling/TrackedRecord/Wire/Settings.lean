import TrackedRecord.Json.Reader
import TrackedRecord.Wire.Error

/-!
# Settings of a codec

Limits on what is decoded and switches, with their JSON form.
-/

namespace TrackedRecord.Wire

structure Settings where
  /-- The greatest count of decoded arrays, maps and state tables. -/
  maxCollection : Nat := 16777216
  /-- The greatest length of decoded strings and byte strings. -/
  maxBytes : Nat := 67108864
  /-- The deepest nesting of records below the top one. -/
  maxDepth : Nat := 64
  /-- Whether decoded records start as copies of one prototype. -/
  cachePrototypes : Bool := true
  /-- Whether checksums of frames are verified. -/
  verifyFrames : Bool := true
  deriving DecidableEq, Repr

namespace Settings

/-- Refuses limits that leave nothing to decode, or lengths that a frame cannot hold. -/
def validate (s : Settings) : Except Error Unit :=
  if s.maxCollection = 0 then .error (.invalidSettings (.notPositive "max_collection_len"))
  else if s.maxBytes = 0 then .error (.invalidSettings (.notPositive "max_bytes_len"))
  else if 0x100000000 ≤ s.maxBytes then .error (.invalidSettings (.beyond32Bits "max_bytes_len"))
  else if s.maxDepth = 0 then .error (.invalidSettings (.notPositive "max_depth"))
  else .ok ()

/-- The one member named `key`, read by `read`; the default if there is none. -/
def setting? {α : Type} (read : Json → Option α) (default : α) (key : String)
    (members : List (String × Json)) : Option α :=
  match members.filter fun m => m.1 == key with
  | [] => some default
  | [(_, json)] => read json
  | _ => none

/-- Settings by name; other members are passed over, a repeated setting is refused. -/
def ofMembers? (members : List (String × Json)) : Option Settings := do
  let defaults : Settings := {}
  let maxCollection ← setting? Json.uint64? defaults.maxCollection "max_collection_len" members
  let maxBytes ← setting? Json.uint64? defaults.maxBytes "max_bytes_len" members
  let maxDepth ← setting? Json.uint64? defaults.maxDepth "max_depth" members
  let cachePrototypes ← setting? Json.bool? defaults.cachePrototypes "cache_prototypes" members
  let verifyFrames ← setting? Json.bool? defaults.verifyFrames "verify_frames" members
  return { maxCollection, maxBytes, maxDepth, cachePrototypes, verifyFrames }

/-- Settings by position; missing ones at the end have their defaults. -/
def ofItems? (items : List Json) : Option Settings :=
  if 5 < items.length then none
  else ofMembers? (["max_collection_len", "max_bytes_len", "max_depth", "cache_prototypes",
    "verify_frames"].zip items)

def ofJson? : Json → Option Settings
  | .object members => ofMembers? members
  | .array items => ofItems? items
  | _ => none

def ofText (text : String) : Except String Settings :=
  match Json.skim text with
  | .error e => .error e.message
  | .ok json => match ofJson? json with
    | some s => .ok s
    | none => .error "not the settings of a codec"

/-- The JSON text with the settings in order of declaration. -/
def text (s : Settings) : String :=
  let flag (b : Bool) : String := if b then "true" else "false"
  "\x7b" ++ s!"\"max_collection_len\":{s.maxCollection},\"max_bytes_len\":{s.maxBytes}," ++
    s!"\"max_depth\":{s.maxDepth},\"cache_prototypes\":{flag s.cachePrototypes}," ++
    s!"\"verify_frames\":{flag s.verifyFrames}" ++ "\x7d"

end Settings

end TrackedRecord.Wire
