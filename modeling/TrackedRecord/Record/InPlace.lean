import TrackedRecord.Record.Basic

/-!
# Records changed in place

The calls that change a record, one store after another: what was stored before a call fails stays stored. Each of
them checks all that it asks for before its first store, so a call that fails has stored nothing.
-/

namespace TrackedRecord

/-- A program that works on a record and may fail at any point. -/
abbrev Update := EStateM RecordError (Record Value)

namespace Update

/-- A check of the record as it is. -/
def check {α : Type} (result : Record Value → Except RecordError α) : Update α := fun r =>
  match result r with
  | .ok a => .ok a r
  | .error e => .error e r

/-- Writes one slot, which must be there. -/
def store (index : Nat) (value : Value) : Update Unit := fun r =>
  if index < r.slots.length then .ok () (r.putSlot index value)
  else .error (.outOfRange index r.slots.length) r

def markDirty (index : Nat) : Update Unit := modify fun r => { r with dirty := r.dirty.set index }

def markReadable (index : Nat) : Update Unit := modify fun r => { r with readable := r.readable.set index }

def touch (index : Nat) : Update Unit := do
  markDirty index
  markReadable index

def set (index : Nat) (value : Value) : Update Unit := do
  let field ← check fun r => r.layout.fieldAt index
  check fun _ => Record.checkConforms field field.schema value
  store index value
  touch index

def setByName (name : String) (value : Value) : Update Unit := do
  let index ← check fun r => r.layout.indexOf name
  set index value

/-- Checks a value where there is a schema for it. -/
def checkAny (field : Field) (schema? : Option Schema) (value : Value) : Update Unit :=
  match schema? with
  | some schema => check fun _ => Record.checkConforms field schema value
  | none => pure ()

def append (index : Nat) (item : Value) : Update Unit := do
  let field ← check fun r => r.layout.fieldOfKind index .list
  checkAny field field.element? item
  match (← get).slot index with
  | .array items => store index (.array (items ++ [item]))
  | _ => store index (.array [item])
  touch index

/-- Works on the map in a slot, which is created if there is none. -/
def withMap {α : Type} (index : Nat) (change : StateMap Value → α × StateMap Value) : Update α := do
  let (a, m) := change ((← get).slot index).mapOrEmpty
  store index (.map m)
  return a

def mapPut (index : Nat) (key : String) (value : Value) : Update (Option Value) := do
  let field ← check fun r => r.layout.fieldOfKind index .map
  checkAny field field.mapValue? value
  let previous ← withMap index fun m => (m.get? key, m.put key value)
  touch index
  return previous

def mapRemove (index : Nat) (key : String) : Update (Option Value) := do
  let _ ← check fun r => r.layout.fieldOfKind index .map
  let previous ← withMap index fun m => (m.get? key, m.remove key)
  touch index
  return previous

def mapClear (index : Nat) : Update Unit := do
  let _ ← check fun r => r.layout.fieldOfKind index .map
  withMap index fun m => ((), m.clear)
  touch index

def setReadable (index : Nat) : Update Unit := do
  let _ ← check fun r => r.layout.fieldAt index
  markReadable index

def setDirty (index : Nat) : Update Unit := do
  let _ ← check fun r => r.layout.fieldAt index
  markDirty index

/-- Takes slots from another record one after another. -/
def takeAll (source : Record Value) : List Nat → Update Unit
  | [] => pure ()
  | index :: rest => do
    match source.slots[index]? with
    | some value => store index value
    | none => throw (.outOfRange index source.slots.length)
    markReadable index
    takeAll source rest

def materializeFrom (source : Record Value) (selection : FieldBits) : Update Unit := do
  check fun r =>
    if source.typeName ≠ r.typeName then .error (.otherRecord r.typeName source.typeName) else .ok ()
  modify Record.clearReadable
  let count := (← get).slots.length
  takeAll source (selection.ones.filter fun index => index < count)

end Update

end TrackedRecord
