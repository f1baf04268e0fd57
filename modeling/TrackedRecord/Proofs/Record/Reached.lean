import TrackedRecord.Proofs.Record.Document
import TrackedRecord.Proofs.Wire.Typed

/-!
# Records that programs reach

A record starts empty, is read from a document or is decoded, and is changed by calls that are not refused;
values that are supplied to a call hold records that were reached before. Every record that is reached is
typed, and so are all records inside it.
-/

namespace TrackedRecord.Record

inductive Reached (registry : Registry) : Record Value → Prop where
  | empty {layout : Layout} (known : registry.get? layout.fullName = some layout) :
      Reached registry (Record.empty layout)
  | change {r r' : Record Value} {change : Change} (reached : Reached registry r)
      (supplied : ∀ value, change.supplied? = some value → ∀ n, value.Contains (.record n) → Reached registry n)
      (done : change.apply r = .ok r') : Reached registry r'
  | setByName {r r' : Record Value} {name : String} {value : Value} (reached : Reached registry r)
      (supplied : ∀ n, value.Contains (.record n) → Reached registry n)
      (done : r.setByName name value = .ok r') : Reached registry r'
  | setReadable {r r' : Record Value} {index : Nat} (reached : Reached registry r)
      (done : r.setReadable index = .ok r') : Reached registry r'
  | setDirty {r r' : Record Value} {index : Nat} (reached : Reached registry r)
      (done : r.setDirty index = .ok r') : Reached registry r'
  | clearDirty {r : Record Value} (reached : Reached registry r) : Reached registry r.clearDirty
  | clearReadable {r : Record Value} (reached : Reached registry r) : Reached registry r.clearReadable
  | clearEntryStates {r : Record Value} (reached : Reached registry r) : Reached registry r.clearEntryStates
  | clearState {r : Record Value} (reached : Reached registry r) : Reached registry r.clearState
  | restrictTo {r : Record Value} (reached : Reached registry r) (selection : FieldBits) :
      Reached registry (r.restrictTo selection)
  | materializeFrom {r source r' : Record Value} {selection : FieldBits} (reached : Reached registry r)
      (given : Reached registry source) (done : r.materializeFrom source selection = .ok r') :
      Reached registry r'
  | ofPrototype {prototype : Record Value} (reached : Reached registry prototype) :
      Reached registry (Record.ofPrototype prototype)
  | document {r : Record Value} {name : String} {compiled : CompiledRecord} {json : Json}
      (known : registry.record? name = some compiled)
      (read : Document.recordOf registry compiled json = .ok r) : Reached registry r
  /-- Decoded by any call of any codec of the registry, into a new record or one that was reached. -/
  | decoded {codec : Wire.Codec} {call : Wire.Codec.Call} {r : Record Value} {consumed : Option Nat}
      (made : codec.Made) (of : codec.registry = registry)
      (reuse : ∀ old, call.reuse = some old → Reached registry old)
      (answered : (codec.answer call).1 = .ok (r, consumed)) : Reached registry r
  /-- A record inside another may be taken out. -/
  | held {r n : Record Value} (reached : Reached registry r) (inside : (Value.record r).Contains (.record n)) :
      Reached registry n

variable {registry : Registry} {r : Record Value}

theorem setByName_ok {r r' : Record Value} {name : String} {value : Value}
    (done : r.setByName name value = .ok r') : ∃ index, (Change.set index value).apply r = .ok r' := by
  obtain ⟨index, _, done⟩ := Result.bind_ok done
  exact ⟨index, done⟩

theorem Reached.typed (makes : registry.MakesTyped) (reached : r.Reached registry) :
    (Value.record r).Typed registry := by
  -- what holds of each record in a supplied value holds of the value
  have whole {value : Value} (each : ∀ n, value.Contains (.record n) → (Value.record n).Typed registry) :
      value.Typed registry := fun n inside => each n inside n (.self _)
  induction reached with
  | empty known => exact empty_typed known
  | change _ _ done ih supplied =>
    exact change_typed ih (fun value present => whole (supplied value present)) done
  | setByName _ _ done ih supplied =>
    obtain ⟨index, done⟩ := setByName_ok done
    refine change_typed ih ?_ done
    rintro _ ⟨⟩
    exact whole supplied
  | setReadable _ done ih => exact setReadable_typed ih done
  | setDirty _ done ih => exact setDirty_typed ih done
  | clearDirty _ ih => exact clearDirty_typed ih
  | clearReadable _ ih => exact clearReadable_typed ih
  | clearEntryStates _ ih => exact clearEntryStates_typed ih
  | clearState _ ih => exact clearState_typed ih
  | restrictTo _ selection ih => exact restrictTo_typed ih selection
  | materializeFrom _ _ done ih given => exact materializeFrom_typed ih given done
  | ofPrototype _ ih => exact clearState_typed ih
  | document known read => exact Document.recordOf_typed makes known read
  | decoded made of _ answered reuse =>
    subst of
    exact Wire.Codec.answer_typed made.sound makes reuse answered
  | held _ inside ih => exact ih.contained inside

/-- In a record that is reached, and in every record inside it, there are a slot and two bits for each field,
and each slot is null or conforms to the schema of its field. -/
theorem reached_typed {catalog : Catalog} {roots : List Schema}
    (compiled : Registry.compile catalog roots = .ok registry) (reached : r.Reached registry) :
    ∀ n, (Value.record r).Contains (.record n) → n.Typed registry :=
  fun n inside => reached.typed (Registry.compile_makesTyped compiled) n inside

end TrackedRecord.Record

namespace TrackedRecord

namespace Node

/-- A node with a number alone. -/
def tail : Record Value := ((Record.empty layout).putSlot 0 (.int 7)).touch 0

/-- An empty node with the tail behind it. -/
def head : Record Value := ((Record.empty layout).putSlot 1 (.record tail)).touch 1

theorem tail_reached : tail.Reached registry := by
  have empty : (Record.empty layout).Reached registry := .empty rfl
  refine .change empty ?_ (show (Change.set 0 (.int 7)).apply (Record.empty layout) = .ok tail from rfl)
  rintro _ ⟨⟩
  exact Value.Flat.every ⟨rfl, fun _ => nofun⟩

end Node

theorem Record.reached_typed_node :
    (Change.set 1 (.record Node.tail)).apply (Record.empty Node.layout) = .ok Node.head ∧
      Node.head.Reached Node.registry ∧
      ∀ n, (Value.record Node.head).Contains (.record n) → n.Typed Node.registry := by
  have done : (Change.set 1 (.record Node.tail)).apply (Record.empty Node.layout) = .ok Node.head := rfl
  have reached : Node.head.Reached Node.registry := by
    refine .change (.empty rfl) ?_ done
    rintro _ ⟨⟩ n inside
    exact .held Node.tail_reached inside
  exact ⟨done, reached, Record.reached_typed Node.compiled reached⟩

end TrackedRecord
