import TrackedRecord.Record.Error
import TrackedRecord.Value.Basic

/-!
# Records

Access to the slots of a record. Every mutator marks the field it touches dirty and readable, whatever
the field held before; a refused call leaves the record as it was.
-/

namespace TrackedRecord

/-- The value without the entry states of a map. -/
def Value.clearEntryStates : Value → Value
  | .map m => .map m.clearStates
  | value => value

/-- The map that a slot holds; any other value stands for the empty map. -/
def Value.mapOrEmpty : Value → StateMap Value
  | .map m => m
  | _ => StateMap.empty

namespace Record

/-- Every slot null and every bit clear. -/
def empty (layout : Layout) : Record Value where
  layout := layout
  slots := List.replicate layout.fieldCount .null
  dirty := FieldBits.new layout.fieldCount
  readable := FieldBits.new layout.fieldCount

/-! ### Slots -/

/-- The slot at an index; null where there is none. -/
def slot (r : Record Value) (index : Nat) : Value := r.slots.getD index .null

/-- Stores a value and leaves the bits. -/
def putSlot (r : Record Value) (index : Nat) (value : Value) : Record Value :=
  { r with slots := r.slots.set index value }

def touch (r : Record Value) (index : Nat) : Record Value :=
  { r with dirty := r.dirty.set index, readable := r.readable.set index }

def get (r : Record Value) (index : Nat) : Except RecordError Value := do
  let _ ← r.layout.fieldAt index
  return r.slot index

def getByName (r : Record Value) (name : String) : Except RecordError Value := do
  let index ← r.layout.indexOf name
  return r.slot index

/-- Refuses a value that is not of the schema. -/
def checkConforms (field : Field) (schema : Schema) (value : Value) : Except RecordError Unit :=
  if value.conforms schema then .ok ()
  else .error (.wrongType field.name schema.display value.kindName)

def set (r : Record Value) (index : Nat) (value : Value) : Except RecordError (Record Value) := do
  let field ← r.layout.fieldAt index
  checkConforms field field.schema value
  return (r.putSlot index value).touch index

def setByName (r : Record Value) (name : String) (value : Value) :
    Except RecordError (Record Value) := do
  let index ← r.layout.indexOf name
  r.set index value

def append (r : Record Value) (index : Nat) (item : Value) : Except RecordError (Record Value) := do
  let field ← r.layout.fieldOfKind index .list
  if let some element := field.element? then checkConforms field element item
  let items := (r.slot index).array?.getD []
  return (r.putSlot index (.array (items ++ [item]))).touch index

/-! ### Entries of map fields -/

def mapGet (r : Record Value) (index : Nat) (key : String) : Except RecordError (Option Value) := do
  let _ ← r.layout.fieldOfKind index .map
  return (r.slot index).mapOrEmpty.get? key

def changeMap (r : Record Value) (index : Nat) (change : StateMap Value → StateMap Value) :
    Record Value :=
  (r.putSlot index (.map (change (r.slot index).mapOrEmpty))).touch index

/-- Writes an entry; also gives the value that was there. -/
def mapPut (r : Record Value) (index : Nat) (key : String) (value : Value) :
    Except RecordError (Option Value × Record Value) := do
  let field ← r.layout.fieldOfKind index .map
  if let some schema := field.mapValue? then checkConforms field schema value
  return ((r.slot index).mapOrEmpty.get? key, r.changeMap index fun m => m.put key value)

/-- Removes an entry; also gives the value that was there. -/
def mapRemove (r : Record Value) (index : Nat) (key : String) :
    Except RecordError (Option Value × Record Value) := do
  let _ ← r.layout.fieldOfKind index .map
  return ((r.slot index).mapOrEmpty.get? key, r.changeMap index fun m => m.remove key)

def mapClear (r : Record Value) (index : Nat) : Except RecordError (Record Value) := do
  let _ ← r.layout.fieldOfKind index .map
  return r.changeMap index StateMap.clear

def entryState (r : Record Value) (index : Nat) (key : String) :
    Except RecordError (Option EntryState) := do
  let _ ← r.layout.fieldOfKind index .map
  return (r.slot index).mapOrEmpty.state? key

/-! ### State bits -/

def isDirty (r : Record Value) (index : Nat) : Bool := r.dirty.get index

def isReadable (r : Record Value) (index : Nat) : Bool := r.readable.get index

def hasDirty (r : Record Value) : Bool := r.dirty.any

def isDirtyByName (r : Record Value) (name : String) : Except RecordError Bool := do
  let index ← r.layout.indexOf name
  return r.isDirty index

def isReadableByName (r : Record Value) (name : String) : Except RecordError Bool := do
  let index ← r.layout.indexOf name
  return r.isReadable index

def setReadable (r : Record Value) (index : Nat) : Except RecordError (Record Value) := do
  let _ ← r.layout.fieldAt index
  return { r with readable := r.readable.set index }

def setDirty (r : Record Value) (index : Nat) : Except RecordError (Record Value) := do
  let _ ← r.layout.fieldAt index
  return { r with dirty := r.dirty.set index }

def clearDirty (r : Record Value) : Record Value := { r with dirty := r.dirty.clearAll }

def clearReadable (r : Record Value) : Record Value := { r with readable := r.readable.clearAll }

def clearEntryStates (r : Record Value) : Record Value :=
  { r with slots := r.slots.map Value.clearEntryStates }

/-- Clears all bits and forgets all entry states. -/
def clearState (r : Record Value) : Record Value := r.clearDirty.clearReadable.clearEntryStates

/-- A copy without state. -/
def ofPrototype (prototype : Record Value) : Record Value := prototype.clearState

/-! ### Partial records -/

/-- Makes every field outside the selection unreadable. -/
def restrictTo (r : Record Value) (selection : FieldBits) : Record Value :=
  let outside := (List.range r.slots.length).filter fun index => !selection.get index
  { r with readable := outside.foldl FieldBits.unset r.readable }

/-- Takes one slot from another record and makes it readable. -/
def takeFrom (source : Record Value) (r : Record Value) (index : Nat) :
    Except RecordError (Record Value) :=
  match source.slots[index]? with
  | some value =>
    let stored := r.putSlot index value
    .ok { stored with readable := stored.readable.set index }
  | none => .error (.outOfRange index source.slots.length)

/-- Takes the selected slots from another record of the type. Only they are readable afterwards, and
none of them becomes dirty by it. -/
def materializeFrom (r source : Record Value) (selection : FieldBits) :
    Except RecordError (Record Value) :=
  if source.typeName ≠ r.typeName then .error (.otherRecord r.typeName source.typeName)
  else
    (selection.ones.filter fun index => index < r.slots.length).foldlM (takeFrom source) r.clearReadable

end Record

end TrackedRecord
