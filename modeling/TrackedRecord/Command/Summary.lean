import TrackedRecord.Record.Document

/-!
# Summaries

Types and decoded records as JSON for people and scripts.
-/

namespace TrackedRecord

def Field.summary (field : Field) : Json := .ofMembers [
  ("name", .string field.name),
  ("index", Json.nat field.index),
  ("constant", .string field.constant),
  ("kind", .string field.kind.name),
  ("nullable", .bool field.isNullable),
  ("schema", .string field.schema.display),
  ("accessors", .array (field.accessors.map fun accessor => .string accessor.name))]

def Layout.summary (layout : Layout) : Json := .ofMembers [
  ("name", .string layout.fullName),
  ("fields", .array (layout.fields.map Field.summary))]

def EnumType.summary (e : EnumType) : Json := .ofMembers [
  ("name", .string e.fullName),
  ("symbols", .array (e.symbols.map Json.string))]

def FixedType.summary (f : FixedType) : Json := .ofMembers [
  ("name", .string f.fullName),
  ("size", Json.nat f.size)]

def Registry.summary (registry : Registry) : Json := .ofMembers [
  ("records", .array (registry.records.map fun record => record.layout.summary)),
  ("enums", .array (registry.enums.map EnumType.summary)),
  ("fixed", .array (registry.fixed.map FixedType.summary))]

/-- The state of every visible key and of every key that has a state of its own. -/
def StateMap.allStates (m : StateMap Value) : List (String × EntryState) :=
  m.states.foldl (fun all (key, state) => Keyed.put key state all)
    (m.keys.map fun key => (key, (m.state? key).getD .unchanged))

def StateMap.stateSummary (m : StateMap Value) : Json :=
  .ofMembers (m.allStates.map fun (key, state) => (key, .string state.name))

namespace Record

def fieldNames (r : Record Value) (indices : List Nat) : Json :=
  .array (indices.filterMap fun index => (r.layout.field? index).map fun field => .string field.name)

/-- The entry states of the readable fields that hold maps. -/
def entryStates (r : Record Value) : Json :=
  .ofMembers (r.readable.ones.filterMap fun index => do
    let field ← r.layout.field? index
    let m ← (r.slot index).map?
    return (field.name, m.stateSummary))

def summary (r : Record Value) : Json := .ofMembers [
  ("type", .string r.typeName),
  ("values", r.readableToJson),
  ("dirty", r.fieldNames r.dirty.ones),
  ("readable", r.fieldNames r.readable.ones),
  ("entry_states", r.entryStates)]

end Record

end TrackedRecord
