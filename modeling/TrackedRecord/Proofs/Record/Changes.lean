import TrackedRecord.Proofs.Result
import TrackedRecord.Proofs.Value.WellFormed

/-!
# Changes of records

A call that changes a record either refuses or does one thing: it writes one slot and marks it dirty and
readable (`Change.apply_ok`). What holds of a record after many calls follows from that.
-/

namespace TrackedRecord

/-- A call that writes to a field. -/
inductive Change where
  | set (index : Nat) (value : Value)
  | append (index : Nat) (item : Value)
  | put (index : Nat) (key : String) (value : Value)
  | remove (index : Nat) (key : String)
  | clear (index : Nat)

namespace Change

def index : Change → Nat
  | .set index _ | .append index _ | .put index _ _ | .remove index _ | .clear index => index

/-- Whether the call works on the entries of a map, each of which has its state. -/
def onEntries : Change → Bool
  | .put .. | .remove .. | .clear _ => true
  | .set .. | .append .. => false

def apply (r : Record Value) : Change → Except RecordError (Record Value)
  | .set index value => r.set index value
  | .append index item => r.append index item
  | .put index key value => do
    let (_, r) ← r.mapPut index key value
    return r
  | .remove index key => do
    let (_, r) ← r.mapRemove index key
    return r
  | .clear index => r.mapClear index

/-- What a field asks of a call. -/
def Fits (field : Field) : Change → Prop
  | .set _ value => value.conforms field.schema = true
  | .append _ item =>
    field.kind = .list ∧ ∀ element, field.element? = some element → item.conforms element = true
  | .put _ _ value =>
    field.kind = .map ∧ ∀ schema, field.mapValue? = some schema → value.conforms schema = true
  | .remove .. | .clear _ => field.kind = .map

/-- What the call leaves in the slot. -/
def result (old : Value) : Change → Value
  | .set _ value => value
  | .append _ item => .array (old.array?.getD [] ++ [item])
  | .put _ key value => .map (old.mapOrEmpty.put key value)
  | .remove _ key => .map (old.mapOrEmpty.remove key)
  | .clear _ => .map old.mapOrEmpty.clear

end Change

/-! ### Refusals -/

theorem Layout.fieldAt_ok {layout : Layout} {index : Nat} {field : Field} :
    layout.fieldAt index = .ok field ↔ layout.field? index = some field := by
  unfold fieldAt
  cases layout.field? index <;> simp

theorem Layout.indexOf_ok {layout : Layout} {name : String} {i : Nat} :
    layout.indexOf name = .ok i ↔ layout.indexOf? name = some i := by
  unfold indexOf
  cases layout.indexOf? name <;> simp

theorem Layout.fieldOfKind_ok {layout : Layout} {index : Nat} {kind : FieldKind} {field : Field} :
    layout.fieldOfKind index kind = .ok field ↔ layout.field? index = some field ∧ field.kind = kind := by
  unfold fieldOfKind
  constructor
  · intro h
    obtain ⟨found, known, h⟩ := Result.bind_ok h
    split at h
    · obtain rfl := Result.pure_ok h
      exact ⟨fieldAt_ok.mp known, ‹_›⟩
    · cases h
  · rintro ⟨known, kind⟩
    rw [Result.bind_of_ok (fieldAt_ok.mpr known), if_pos kind]
    rfl

theorem Record.checkConforms_ok {field : Field} {schema : Schema} {value : Value} {u : Unit} :
    checkConforms field schema value = .ok u ↔ value.conforms schema = true := by
  unfold checkConforms
  split <;> simp_all

/-- A result after a check for which there may be no schema. -/
theorem Record.checked_ok {α : Type} {field : Field} {schema? : Option Schema} {value : Value} {a b : α} :
    (match (motive := Option Schema → Except RecordError α) schema? with
      | some schema => do
        checkConforms field schema value
        return a
      | _ => return a) = .ok b ↔
      (∀ schema, schema? = some schema → value.conforms schema = true) ∧ b = a := by
  cases schema? with
  | none => exact ⟨fun made => ⟨nofun, Result.pure_ok made⟩, fun made => congrArg Except.ok made.2.symm⟩
  | some schema =>
    simp only [Option.some.injEq, forall_eq']
    constructor
    · intro made
      obtain ⟨_, fits, made⟩ := Result.bind_ok made
      exact ⟨checkConforms_ok.mp fits, Result.pure_ok made⟩
    · rintro ⟨fits, rfl⟩
      have checked : checkConforms field schema value = .ok () := checkConforms_ok.mpr fits
      rw [Result.bind_of_ok checked]
      rfl

namespace Change

/-- All that a call can do to a record. -/
theorem apply_ok {change : Change} {r r' : Record Value} :
    change.apply r = .ok r' ↔
      ∃ field, r.layout.field? change.index = some field ∧ change.Fits field ∧
        r' = (r.putSlot change.index (change.result (r.slot change.index))).touch change.index := by
  cases change with
  | set index value =>
    simp only [apply, Record.set, Result.bind_ok_iff, Layout.fieldAt_ok, Record.checkConforms_ok, Fits,
      Change.index, result]
    constructor
    · rintro ⟨field, known, _, fits, made⟩
      exact ⟨field, known, fits, Result.pure_ok made⟩
    · rintro ⟨field, known, fits, rfl⟩
      exact ⟨field, known, (), fits, rfl⟩
  | append index item =>
    simp only [apply, Record.append, Result.bind_ok_iff, Layout.fieldOfKind_ok, Fits, Change.index, result]
    constructor
    · rintro ⟨field, ⟨known, kind⟩, made⟩
      obtain ⟨fits, rfl⟩ := Record.checked_ok.mp made
      exact ⟨field, known, ⟨kind, fits⟩, rfl⟩
    · rintro ⟨field, known, ⟨kind, fits⟩, rfl⟩
      exact ⟨field, ⟨known, kind⟩, Record.checked_ok.mpr ⟨fits, rfl⟩⟩
  | put index key value =>
    simp only [apply, Record.mapPut, Result.bind_ok_iff, Layout.fieldOfKind_ok, Fits, Change.index, result]
    constructor
    · rintro ⟨found, ⟨field, ⟨known, kind⟩, made⟩, same⟩
      obtain ⟨fits, rfl⟩ := Record.checked_ok.mp made
      exact ⟨field, known, ⟨kind, fits⟩, Result.pure_ok same⟩
    · rintro ⟨field, known, ⟨kind, fits⟩, rfl⟩
      exact ⟨_, ⟨field, ⟨known, kind⟩, Record.checked_ok.mpr ⟨fits, rfl⟩⟩, rfl⟩
  | remove index key =>
    simp only [apply, Record.mapRemove, Result.bind_ok_iff, Layout.fieldOfKind_ok, Fits, Change.index, result]
    constructor
    · rintro ⟨found, ⟨field, ⟨known, kind⟩, made⟩, same⟩
      cases made
      exact ⟨field, known, kind, Result.pure_ok same⟩
    · rintro ⟨field, known, kind, rfl⟩
      exact ⟨_, ⟨field, ⟨known, kind⟩, rfl⟩, rfl⟩
  | clear index =>
    simp only [apply, Record.mapClear, Result.bind_ok_iff, Layout.fieldOfKind_ok, Fits, Change.index, result]
    constructor
    · rintro ⟨field, ⟨known, kind⟩, made⟩
      exact ⟨field, known, kind, Result.pure_ok made⟩
    · rintro ⟨field, known, kind, rfl⟩
      exact ⟨field, ⟨known, kind⟩, rfl⟩

end Change

/-! ### What is seen of a change -/

theorem Record.slot_of_lt {r : Record Value} {i : Nat} (inside : i < r.slots.length) :
    r.slot i = r.slots[i] := by
  rw [slot, List.getD_eq_getElem?_getD, List.getElem?_eq_getElem inside]
  rfl

theorem Record.slot_of_le {r : Record Value} {i : Nat} (outside : r.slots.length ≤ i) : r.slot i = .null := by
  rw [slot, List.getD_eq_getElem?_getD, List.getElem?_eq_none outside]
  rfl

theorem Record.slot_mem_or_null (r : Record Value) (i : Nat) : r.slot i ∈ r.slots ∨ r.slot i = .null := by
  by_cases inside : i < r.slots.length
  · rw [slot_of_lt inside]
    exact Or.inl (List.getElem_mem inside)
  · exact Or.inr (slot_of_le (Nat.not_lt.mp inside))

theorem Record.slot_wellFormed {registry : Registry} {r : Record Value} (formed : r.WellFormed registry)
    (i : Nat) : (r.slot i).WellFormed registry := by
  rcases slot_mem_or_null r i with present | absent
  · exact formed.2 _ present
  · rw [absent]
    exact Value.wellFormed_null

theorem Record.mem_slots {r : Record Value} {value : Value} (member : value ∈ r.slots) :
    ∃ i, i < r.slots.length ∧ r.slot i = value := by
  obtain ⟨i, inside, same⟩ := List.mem_iff_getElem.mp member
  exact ⟨i, inside, (slot_of_lt inside).trans same⟩

theorem Record.slot_putSlot {r : Record Value} {index : Nat} (inside : index < r.slots.length)
    (value : Value) (i : Nat) : (r.putSlot index value).slot i = if i = index then value else r.slot i := by
  simp only [slot, putSlot, List.getD_eq_getElem?_getD, List.getElem?_set]
  by_cases here : i = index
  · subst here
    simp [inside]
  · simp [here, Ne.symm here]

theorem Layout.lt_of_field? {layout : Layout} {index : Nat} {field : Field}
    (known : layout.field? index = some field) : index < layout.fieldCount :=
  (List.getElem?_eq_some_iff.mp known).1

theorem Layout.exists_field {layout : Layout} {index : Nat} (inside : index < layout.fieldCount) :
    ∃ field, layout.field? index = some field :=
  ⟨_, List.getElem?_eq_getElem inside⟩

/-- What the access to a record shows of a call that was done. -/
structure Change.Does (change : Change) (r r' : Record Value) : Prop where
  layout : r'.layout = r.layout
  slots : r'.slots.length = r.slots.length
  fits : ∃ field, r.layout.field? change.index = some field ∧ change.Fits field
  slot : ∀ i, r'.slot i = if i = change.index then change.result (r.slot i) else r.slot i
  dirty : ∀ i, r'.isDirty i = (r.isDirty i || decide (change.index = i))
  readable : ∀ i, r'.isReadable i = (r.isReadable i || decide (change.index = i))

variable {registry : Registry}

theorem Change.apply_does {change : Change} {r r' : Record Value} (shaped : r.Shaped registry)
    (done : change.apply r = .ok r') : change.Does r r' ∧ r'.Shaped registry := by
  obtain ⟨field, known, fits, rfl⟩ := apply_ok.mp done
  have inside := Layout.lt_of_field? known
  have length (value : Value) : (r.slots.set change.index value).length = r.slots.length :=
    List.length_set
  constructor
  · refine ⟨rfl, length _, ⟨field, known, fits⟩, fun i => ?_, fun i => ?_, fun i => ?_⟩
    · refine (Record.slot_putSlot (shaped.slots ▸ inside) _ i).trans ?_
      split
      · subst_vars
        rfl
      · rfl
    · exact shaped.dirty.get_set (shaped.dirtyLen ▸ inside) i
    · exact shaped.readable.get_set (shaped.readableLen ▸ inside) i
  · refine ⟨shaped.layout, (length _).trans shaped.slots, shaped.dirty.set _, ?_, shaped.readable.set _, ?_⟩
    · exact (FieldBits.set_len _ _).trans shaped.dirtyLen
    · exact (FieldBits.set_len _ _).trans shaped.readableLen

/-! ### Many changes -/

/-- The record after calls of which none is refused. -/
def Record.changed (r : Record Value) : List Change → Except RecordError (Record Value)
  | [] => .ok r
  | change :: rest => do
    let r ← change.apply r
    r.changed rest

theorem Record.changed_shaped {changes : List Change} {r r' : Record Value} (shaped : r.Shaped registry)
    (run : r.changed changes = .ok r') : r'.Shaped registry := by
  induction changes generalizing r with
  | nil =>
    cases run
    exact shaped
  | cons change rest ih =>
    obtain ⟨next, done, run⟩ := Result.bind_ok run
    exact ih (Change.apply_does shaped done).2 run

/-- What holds at first and is kept by every call holds in the end. -/
theorem Record.changed_induction {P : Record Value → Prop} {changes : List Change} {r r' : Record Value}
    (shaped : r.Shaped registry) (run : r.changed changes = .ok r') (first : P r)
    (step : ∀ change ∈ changes, ∀ s s', change.Does s s' → P s → P s') : P r' := by
  induction changes generalizing r with
  | nil =>
    cases run
    exact first
  | cons change rest ih =>
    obtain ⟨next, done, run⟩ := Result.bind_ok run
    obtain ⟨does, shaped⟩ := Change.apply_does shaped done
    rw [List.forall_mem_cons] at step
    exact ih shaped run (step.1 _ _ does first) step.2

end TrackedRecord
