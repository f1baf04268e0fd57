import TrackedRecord.Proofs.Record.Changes
import TrackedRecord.Proofs.Record.Partial
import TrackedRecord.Proofs.Wire.Codec
import TrackedRecord.Record.InPlace

/-!
# Calls that fail, and what calls leave alone

A call that works in place gives what the function of the record gives, and where that refuses, it has stored
nothing. A call that writes to a field leaves all other fields with their bits and their entry states.
-/

namespace TrackedRecord

namespace Update

variable {α β γ : Type} {r s : Record Value}

/-- On `r` the program ends as the result says, and an error leaves `r` as it was. -/
def Does (program : Update α) (r : Record Value) (give : β → α × Record Value) (result : Except RecordError β) :
    Prop :=
  program r = match result with
    | .ok b => .ok (give b).1 (give b).2
    | .error e => .error e r

/-- A check may be followed by anything that counts only where the check succeeds. -/
theorem Does.check {f : Record Value → Except RecordError γ} {program : γ → Update α}
    {give : β → α × Record Value} {result : γ → Except RecordError β}
    (rest : ∀ c, f r = .ok c → Does (program c) r give (result c)) :
    Does (check f >>= program) r give (f r >>= result) := by
  cases checked : f r with
  | error e =>
    change EStateM.bind (Update.check f) program r = .error e r
    simp only [EStateM.bind, Update.check, checked]
  | ok c =>
    have run : (Update.check f >>= program) r = program c r :=
      Result.bind_of_run (show Update.check f r = .ok c r by simp only [Update.check, checked])
    exact run.trans (rest c checked)

theorem Does.checkAny {field : Field} {schema? : Option Schema} {value : Value} {program : Update α}
    {give : β → α × Record Value} {b : β} (rest : program r = .ok (give b).1 (give b).2) :
    Does (checkAny field schema? value >>= fun _ => program) r give
      (match schema? with
        | some schema => do
          Record.checkConforms field schema value
          return b
        | _ => return b) := by
  cases schema? with
  | none => exact (Result.bind_of_run (show Update.checkAny field none value r = .ok () r from rfl)).trans rest
  | some schema =>
    change Does _ r give ((fun _ => Record.checkConforms field schema value) r >>= fun _ => .ok b)
    exact Does.check fun _ _ => rest

theorem store_bind {index : Nat} (inside : index < r.slots.length) (value : Value) (program : Unit → Update α) :
    (store index value >>= program) r = program () (r.putSlot index value) :=
  Result.bind_of_run (if_pos inside)

/-- A call stores one value and marks the field. -/
theorem stored {index : Nat} (inside : index < r.slots.length) (value : Value) :
    (store index value >>= fun _ => touch index) r = .ok () ((r.putSlot index value).touch index) :=
  store_bind inside value _

theorem withMap_bind {index : Nat} (inside : index < r.slots.length)
    (change : StateMap Value → α × StateMap Value) (program : α → Update β) :
    (withMap index change >>= program) r =
      program (change (r.slot index).mapOrEmpty).1 (r.putSlot index (.map (change (r.slot index).mapOrEmpty).2)) := by
  refine Result.bind_of_run ?_
  change (store index _ >>= fun _ => pure _) r = _
  rw [store_bind inside]
  rfl

/-! ### What each call does -/

section Calls

variable (sized : r.slots.length = r.layout.fieldCount)

include sized

theorem inside_of_fieldAt {index : Nat} {field : Field} (known : r.layout.fieldAt index = .ok field) :
    index < r.slots.length :=
  sized ▸ Layout.lt_of_field? (Layout.fieldAt_ok.mp known)

theorem inside_of_fieldOfKind {index : Nat} {kind : FieldKind} {field : Field}
    (known : r.layout.fieldOfKind index kind = .ok field) : index < r.slots.length :=
  sized ▸ Layout.lt_of_field? (Layout.fieldOfKind_ok.mp known).1

theorem set_does (index : Nat) (value : Value) :
    Does (set index value) r (fun s => ((), s)) (r.set index value) := by
  refine Does.check fun field known => ?_
  refine Does.check (f := fun _ => Record.checkConforms field field.schema value) fun _ _ => ?_
  exact stored (inside_of_fieldAt sized known) value

theorem setByName_does (name : String) (value : Value) :
    Does (setByName name value) r (fun s => ((), s)) (r.setByName name value) :=
  Does.check fun index _ => set_does sized index value

theorem append_does (index : Nat) (item : Value) :
    Does (append index item) r (fun s => ((), s)) (r.append index item) := by
  refine Does.check fun field known => Does.checkAny ?_
  have inside := inside_of_fieldOfKind sized known
  have read : (get : Update (Record Value)) r = .ok r r := rfl
  refine (Result.bind_of_run read).trans ?_
  dsimp only
  cases r.slot index <;> exact stored inside _

theorem mapPut_does (index : Nat) (key : String) (value : Value) :
    Does (mapPut index key value) r id (r.mapPut index key value) := by
  refine Does.check fun field known => Does.checkAny ?_
  exact withMap_bind (inside_of_fieldOfKind sized known) _ _

theorem mapRemove_does (index : Nat) (key : String) :
    Does (mapRemove index key) r id (r.mapRemove index key) := by
  refine Does.check fun field known => ?_
  exact withMap_bind (inside_of_fieldOfKind sized known) _ _

theorem mapClear_does (index : Nat) : Does (mapClear index) r (fun s => ((), s)) (r.mapClear index) := by
  refine Does.check fun field known => ?_
  exact withMap_bind (inside_of_fieldOfKind sized known) _ _

end Calls

theorem setReadable_does (index : Nat) : Does (setReadable index) r (fun s => ((), s)) (r.setReadable index) :=
  Does.check fun _ _ => rfl

theorem setDirty_does (index : Nat) : Does (setDirty index) r (fun s => ((), s)) (r.setDirty index) :=
  Does.check fun _ _ => rfl

/-! ### Slots taken from another record -/

/-- `s` is `r` with the slots at the indices taken from the source and made readable. -/
structure Took (source : Record Value) (indices : List Nat) (r s : Record Value) : Prop where
  layout : s.layout = r.layout
  slots : s.slots.length = r.slots.length
  slot : ∀ i, s.slot i = if i ∈ indices then source.slot i else r.slot i
  dirty : s.dirty = r.dirty
  readable : s.readable = indices.foldl FieldBits.set r.readable

/-- `r` with one slot of the source. -/
def taken (source r : Record Value) (index : Nat) : Record Value :=
  { r.putSlot index (source.slot index) with readable := r.readable.set index }

theorem Took.next {source : Record Value} {index : Nat} {rest : List Nat} (inside : index < r.slots.length)
    (took : Took source rest (taken source r index) s) : Took source (index :: rest) r s where
  layout := took.layout
  slots := took.slots.trans List.length_set
  dirty := took.dirty
  readable := took.readable
  slot i := by
    rw [took.slot]
    have before : (taken source r index).slot i = if i = index then source.slot index else r.slot i :=
      Record.slot_putSlot inside _ i
    by_cases here : i = index
    · subst here
      simp [before]
    · simp [before, here]

/-- One after another or all at once, the same slots are taken where both records have them. -/
theorem takeAll_run {source : Record Value} {indices : List Nat}
    (inside : ∀ i ∈ indices, i < source.slots.length ∧ i < r.slots.length) :
    ∃ s, takeAll source indices r = .ok () s ∧ indices.foldlM (Record.takeFrom source) r = .ok s ∧
      Took source indices r s := by
  induction indices generalizing r with
  | nil => exact ⟨r, rfl, rfl, rfl, rfl, fun i => by simp, rfl, rfl⟩
  | cons index rest ih =>
    obtain ⟨⟨there, here⟩, later⟩ := List.forall_mem_cons.mp inside
    have found : source.slots[index]? = some (source.slot index) := by
      rw [Record.slot_of_lt there, List.getElem?_eq_getElem there]
    have sized : (taken source r index).slots.length = r.slots.length := List.length_set
    obtain ⟨s, run, folded, took⟩ := ih (r := taken source r index) (by rwa [sized])
    refine ⟨s, ?_, ?_, took.next here⟩
    · rw [takeAll, found]
      exact (store_bind here _ _).trans run
    · rw [List.foldlM_cons, Record.takeFrom, found]
      exact folded

variable {registry : Registry}

theorem layout_of_typeName (shaped : r.Shaped registry) {source : Record Value}
    (other : source.Shaped registry) (same : source.typeName = r.typeName) : source.layout = r.layout := by
  have known := other.layout
  rw [same, shaped.layout] at known
  exact (Option.some.inj known).symm

/-- What is left of a record after slots were taken from another one. -/
structure Materialized (source : Record Value) (selection : FieldBits) (r s : Record Value) : Prop where
  layout : s.layout = r.layout
  slots : s.slots.length = r.slots.length
  slot : ∀ i, s.slot i = if selection.get i then source.slot i else r.slot i
  dirty : s.dirty = r.dirty
  readable : ∀ i, s.isReadable i = (selection.get i && decide (i < r.layout.fieldCount))

/-- The selected slots that the record has. -/
theorem materializeFrom_run (shaped : r.Shaped registry) {source : Record Value}
    (other : source.Shaped registry) (same : source.typeName = r.typeName) (selection : FieldBits) :
    ∃ s, materializeFrom source selection r = .ok () s ∧ r.materializeFrom source selection = .ok s ∧
      Materialized source selection r s := by
  have layout := layout_of_typeName shaped other same
  have sized : source.slots.length = r.slots.length := by rw [other.slots, shaped.slots, layout]
  have selected (i : Nat) : i ∈ (selection.ones.filter fun index => index < r.slots.length) ↔
      selection.get i = true ∧ i < r.slots.length := by
    simp [FieldBits.mem_ones]
  have inside : ∀ i ∈ selection.ones.filter fun index => index < r.slots.length,
      i < source.slots.length ∧ i < r.clearReadable.slots.length :=
    fun i member => ⟨sized ▸ ((selected i).mp member).2, ((selected i).mp member).2⟩
  obtain ⟨s, run, folded, took⟩ := takeAll_run inside
  refine ⟨s, ?_, ?_, took.layout, took.slots, fun i => ?_, took.dirty, fun i => ?_⟩
  · have checked : check (fun r : Record Value =>
        if source.typeName ≠ r.typeName then .error (.otherRecord r.typeName source.typeName) else .ok ()) r =
          .ok () r := by
      simp only [check, same, ne_eq, not_true_eq_false, if_false]
    exact (Result.bind_of_run checked).trans run
  · rw [Record.materializeFrom, if_neg (Decidable.not_not.mpr same)]
    exact folded
  · have kept : r.clearReadable.slot i = r.slot i := rfl
    rw [took.slot, kept]
    by_cases inside : i < r.slots.length
    · simp only [selected, inside, and_true]
    · rw [Record.slot_of_le (Nat.not_lt.mp inside), Record.slot_of_le (sized ▸ Nat.not_lt.mp inside)]
      simp
  · have room : ∀ i ∈ selection.ones.filter fun index => index < r.slots.length, i < r.readable.clearAll.len := by
      intro i member
      exact lt_of_lt_of_eq ((selected i).mp member).2 (shaped.slots.trans shaped.readableLen.symm)
    have read := shaped.readable.clearAll.get_foldl_set room i
    rw [FieldBits.get_clearAll, Bool.false_or] at read
    rw [Record.isReadable, took.readable, ← shaped.slots]
    exact read.trans (by simp only [selected, Bool.decide_and, Bool.decide_eq_true])

theorem materializeFrom_does (shaped : r.Shaped registry) {source : Record Value}
    (other : source.Shaped registry) (selection : FieldBits) :
    Does (materializeFrom source selection) r (fun s => ((), s)) (r.materializeFrom source selection) := by
  by_cases same : source.typeName = r.typeName
  · obtain ⟨s, run, made, _⟩ := materializeFrom_run shaped other same selection
    unfold Does
    rw [made]
    exact run
  · have refused : r.materializeFrom source selection = .error (.otherRecord r.typeName source.typeName) :=
      if_pos same
    unfold Does
    rw [refused]
    change EStateM.bind _ _ r = _
    simp only [EStateM.bind, check, ne_eq, same, not_false_eq_true, if_true]

end Update

/-! ### Calls that fail -/

/-- A call on a record that may be refused. -/
inductive Operation where
  | write (change : Change)
  | setByName (name : String) (value : Value)
  | setReadable (index : Nat)
  | setDirty (index : Nat)
  | materialize (source : Record Value) (selection : FieldBits)

/-- The call of a change, without the entry that it gives back. -/
def Change.run : Change → Update Unit
  | .set index value => Update.set index value
  | .append index item => Update.append index item
  | .put index key value => discard (Update.mapPut index key value)
  | .remove index key => discard (Update.mapRemove index key)
  | .clear index => Update.mapClear index

namespace Operation

variable {registry : Registry} {r s : Record Value}

def apply (r : Record Value) : Operation → Except RecordError (Record Value)
  | .write change => change.apply r
  | .setByName name value => r.setByName name value
  | .setReadable index => r.setReadable index
  | .setDirty index => r.setDirty index
  | .materialize source selection => r.materializeFrom source selection

/-- The call in place. -/
def run : Operation → Update Unit
  | .write change => change.run
  | .setByName name value => Update.setByName name value
  | .setReadable index => Update.setReadable index
  | .setDirty index => Update.setDirty index
  | .materialize source selection => Update.materializeFrom source selection

/-- The record that is read as well is an instance of the registry. -/
def Within (registry : Registry) : Operation → Prop
  | .materialize source _ => source.Shaped registry
  | _ => True

end Operation

namespace Update

variable {α : Type} {registry : Registry} {r s : Record Value}

/-- What a call gives back beside the record may be dropped. -/
theorem Does.discard {program : Update α} {result : Except RecordError (α × Record Value)}
    (does : Does program r id result) :
    Does (discard program) r (fun s => ((), s)) (do let (_, s) ← result; return s) := by
  change EStateM.map _ program r = _
  unfold Does at does
  cases result with
  | error e => simp only [EStateM.map, does]; rfl
  | ok made => simp only [EStateM.map, does]; rfl

theorem change_does (sized : r.slots.length = r.layout.fieldCount) (change : Change) :
    Does change.run r (fun s => ((), s)) (change.apply r) := by
  cases change with
  | set index value => exact set_does sized index value
  | append index item => exact append_does sized index item
  | put index key value => exact (mapPut_does sized index key value).discard
  | remove index key => exact (mapRemove_does sized index key).discard
  | clear index => exact mapClear_does sized index

theorem operation_does (shaped : r.Shaped registry) {op : Operation} (within : op.Within registry) :
    Does op.run r (fun s => ((), s)) (op.apply r) := by
  cases op with
  | write change => exact change_does shaped.slots change
  | setByName name value => exact setByName_does shaped.slots name value
  | setReadable index => exact setReadable_does index
  | setDirty index => exact setDirty_does index
  | materialize source selection => exact materializeFrom_does shaped within selection

end Update

/-! ### What calls leave alone -/

/-- All but one field as before; that one is dirty and readable. -/
structure Touched (index : Nat) (r s : Record Value) : Prop where
  inside : index < r.layout.fieldCount
  layout : s.layout = r.layout
  slots : s.slots.length = r.slots.length
  slot : ∀ i, i ≠ index → s.slot i = r.slot i
  entries : ∀ i, i ≠ index → ∀ key, s.entryState i key = r.entryState i key
  dirty : ∀ i, s.isDirty i = (r.isDirty i || decide (i = index))
  readable : ∀ i, s.isReadable i = (r.isReadable i || decide (i = index))

/-- No more is readable than before and selected. -/
structure Restricted (selection : FieldBits) (r s : Record Value) : Prop where
  layout : s.layout = r.layout
  slots : s.slots = r.slots
  dirty : s.dirty = r.dirty
  readable : ∀ i, s.isReadable i = (r.isReadable i && selection.get i)

theorem Change.Does.touched {change : Change} {r s : Record Value} (does : change.Does r s) :
    Touched change.index r s where
  inside := by
    obtain ⟨field, known, _⟩ := does.fits
    exact Layout.lt_of_field? known
  layout := does.layout
  slots := does.slots
  slot i other := by rw [does.slot, if_neg other]
  entries i other key := by rw [Record.entryState, Record.entryState, does.layout, does.slot, if_neg other]
  dirty i := by simp only [does.dirty, eq_comm]
  readable i := by simp only [does.readable, eq_comm]

namespace Operation

variable {registry : Registry} {r s : Record Value}

/-- What a call that is done leaves. -/
def Leaves (r s : Record Value) : Operation → Prop
  | .write change => Touched change.index r s
  | .setByName name _ => ∃ index, r.layout.indexOf? name = some index ∧ Touched index r s
  | .setReadable index =>
    index < r.layout.fieldCount ∧ s = { r with readable := s.readable } ∧
      ∀ i, s.isReadable i = (r.isReadable i || decide (i = index))
  | .setDirty index =>
    index < r.layout.fieldCount ∧ s = { r with dirty := s.dirty } ∧
      ∀ i, s.isDirty i = (r.isDirty i || decide (i = index))
  | .materialize source selection => source.typeName = r.typeName ∧ Update.Materialized source selection r s

theorem leaves (shaped : r.Shaped registry) {op : Operation} (within : op.Within registry)
    (done : op.apply r = .ok s) : op.Leaves r s := by
  cases op with
  | write change => exact (Change.apply_does shaped done).1.touched
  | setByName name value =>
    obtain ⟨index, known, done⟩ := Result.bind_ok done
    have set : (Change.set index value).apply r = .ok s := done
    exact ⟨index, Layout.indexOf_ok.mp known, (Change.apply_does shaped set).1.touched⟩
  | setReadable index =>
    obtain ⟨field, known, done⟩ := Result.bind_ok done
    obtain rfl := Result.pure_ok done
    have inside := Layout.lt_of_field? (Layout.fieldAt_ok.mp known)
    refine ⟨inside, rfl, fun i => ?_⟩
    simp only [Record.isReadable, shaped.readable.get_set (shaped.readableLen ▸ inside), eq_comm]
  | setDirty index =>
    obtain ⟨field, known, done⟩ := Result.bind_ok done
    obtain rfl := Result.pure_ok done
    have inside := Layout.lt_of_field? (Layout.fieldAt_ok.mp known)
    refine ⟨inside, rfl, fun i => ?_⟩
    simp only [Record.isDirty, shaped.dirty.get_set (shaped.dirtyLen ▸ inside), eq_comm]
  | materialize source selection =>
    by_cases same : source.typeName = r.typeName
    · obtain ⟨s', _, made, materialized⟩ := Update.materializeFrom_run shaped within same selection
      obtain rfl := Except.ok.inj (made.symm.trans done)
      exact ⟨same, materialized⟩
    · rw [apply, Record.materializeFrom, if_pos same] at done
      cases done

end Operation

/-- A call that fails has stored nothing; one that is done changes its own field only. -/
theorem Record.operations_local {registry : Registry} {r : Record Value} (shaped : r.Shaped registry) :
    (∀ op : Operation, op.Within registry →
      (∀ e s, op.run r = .error e s → s = r ∧ op.apply r = .error e) ∧
        ∀ s, op.run r = .ok () s → op.Leaves r s ∧ op.apply r = .ok s) ∧
      (∀ source : Record Value, source.Shaped registry → source.typeName = r.typeName →
        ∀ selection, ∃ s, (Operation.materialize source selection).run r = .ok () s) ∧
      ∀ selection, Restricted selection r (r.restrictTo selection) := by
  refine ⟨fun op within => ?_, fun source other same selection => ?_, fun selection => ?_⟩
  · have does := Update.operation_does shaped within
    unfold Update.Does at does
    rw [does]
    cases applied : op.apply r with
    | error e => exact ⟨fun e' s ended => by cases ended; exact ⟨rfl, rfl⟩, fun s => nofun⟩
    | ok made =>
      refine ⟨fun e s => nofun, fun s ended => ?_⟩
      cases ended
      exact ⟨Operation.leaves shaped within applied, rfl⟩
  · obtain ⟨s, run, _⟩ := Update.materializeFrom_run shaped other same selection
    exact ⟨s, run⟩
  · exact ⟨rfl, rfl, rfl, shaped.isReadable_restrictTo selection⟩

/-- A value of a wrong type is refused, one that is there already is written all the same, and a selection may be
longer than the record. -/
theorem Record.operations_local_node :
    (Operation.write (.set 0 .null)).run Node.sample = .error (.wrongType "number" "int" "null") Node.sample ∧
      (∃ s, (Operation.write (.set 0 (.int 5))).run Node.sample = .ok () s ∧ Touched 0 Node.sample s) ∧
      (∃ s, (Operation.materialize Node.sample (FieldBits.ofBools [true, false, false, true])).run
          (Record.empty Node.layout) = .ok () s ∧
        Update.Materialized Node.sample (FieldBits.ofBools [true, false, false, true])
          (Record.empty Node.layout) s) ∧
      Restricted (FieldBits.ofBools [true]) Node.sample (Node.sample.restrictTo (FieldBits.ofBools [true])) := by
  have shaped := Node.sample_wellFormed.1
  obtain ⟨calls, _, restricted⟩ := Record.operations_local shaped
  have empty : (Record.empty Node.layout).Shaped Node.registry := (Record.empty_wellFormed rfl).1
  obtain ⟨taking, total, _⟩ := Record.operations_local empty
  refine ⟨?_, ?_, ?_, restricted _⟩
  · have refused : ∃ s, (Operation.write (.set 0 .null)).run Node.sample =
        .error (.wrongType "number" "int" "null") s := ⟨_, rfl⟩
    obtain ⟨s, run⟩ := refused
    obtain ⟨rfl, _⟩ := (calls (.write _) trivial).1 _ s run
    exact run
  · have written : ∃ s, (Operation.write (.set 0 (.int 5))).run Node.sample = .ok () s := ⟨_, rfl⟩
    obtain ⟨s, run⟩ := written
    exact ⟨s, run, ((calls (.write _) trivial).2 s run).1⟩
  · obtain ⟨s, run⟩ := total Node.sample shaped rfl (FieldBits.ofBools [true, false, false, true])
    exact ⟨s, run, (((taking (.materialize _ _) shaped).2 s run).1).2⟩

end TrackedRecord
