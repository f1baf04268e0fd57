import TrackedRecord.Proofs.Record.InPlace
import TrackedRecord.Proofs.Record.Marked
import TrackedRecord.Proofs.Record.Reached
import TrackedRecord.Proofs.Wire.Admitted

/-!
# Which written records have a payload

A field that a call or a document wrote conforms from then on, whatever else happens to the record. A record
of which all readable fields were written has a payload if the records nested in them are filled and nest
within the limit, and only then: what is checked when a nested record is supplied is its type, not what was
never set in it.
-/

namespace TrackedRecord

namespace Record

/-- The slot at an index conforms to the schema of its field. -/
def ConformsAt (r : Record Value) (i : Nat) : Prop :=
  ∀ field, r.layout.field? i = some field → (r.slot i).conforms field.schema = true

/-- A record and the fields of it that were written since it was reached. The written fields are history: no
bit of the record tells them from fields that were made readable in another way. -/
inductive Written (registry : Registry) : List Nat → Record Value → Prop where
  | reached {r : Record Value} (reached : r.Reached registry) : Written registry [] r
  /-- A document writes the fields that it names. -/
  | document {r : Record Value} {name : String} {compiled : CompiledRecord} {members : List (String × Json)}
      (known : registry.record? name = some compiled)
      (read : Document.recordOf registry compiled (.object members) = .ok r) :
      Written registry (members.filterMap fun member => compiled.layout.indexOf? member.1) r
  /-- A call writes its field; the records that it supplies may be reached in any way. -/
  | change {fields : List Nat} {r r' : Record Value} {change : Change} (written : Written registry fields r)
      (supplied : ∀ value, change.supplied? = some value →
        ∀ n, value.Contains (.record n) → n.Reached registry)
      (done : change.apply r = .ok r') : Written registry (change.index :: fields) r'
  | setReadable {fields : List Nat} {r r' : Record Value} {index : Nat} (written : Written registry fields r)
      (done : r.setReadable index = .ok r') : Written registry fields r'
  | setDirty {fields : List Nat} {r r' : Record Value} {index : Nat} (written : Written registry fields r)
      (done : r.setDirty index = .ok r') : Written registry fields r'
  | clearDirty {fields : List Nat} {r : Record Value} (written : Written registry fields r) :
      Written registry fields r.clearDirty
  | clearReadable {fields : List Nat} {r : Record Value} (written : Written registry fields r) :
      Written registry fields r.clearReadable
  | clearEntryStates {fields : List Nat} {r : Record Value} (written : Written registry fields r) :
      Written registry fields r.clearEntryStates
  | clearState {fields : List Nat} {r : Record Value} (written : Written registry fields r) :
      Written registry fields r.clearState
  | restrictTo {fields : List Nat} {r : Record Value} (written : Written registry fields r)
      (selection : FieldBits) : Written registry fields (r.restrictTo selection)
  /-- A selected field is as written as it was in the record that it is taken from. -/
  | materializeFrom {fields given : List Nat} {r source r' : Record Value} {selection : FieldBits}
      (written : Written registry fields r) (from' : Written registry given source)
      (done : r.materializeFrom source selection = .ok r') :
      Written registry (given.filter selection.get ++ fields.filter fun i => !selection.get i) r'

/-- All readable fields were written. -/
def AllWritten (registry : Registry) (r : Record Value) : Prop :=
  ∃ fields, r.Written registry fields ∧ ∀ i, r.isReadable i = true → i ∈ fields

variable {registry : Registry} {fields : List Nat} {r r' : Record Value}

theorem Written.isReached (written : r.Written registry fields) : r.Reached registry := by
  induction written with
  | reached reached => exact reached
  | document known read => exact .document known read
  | change _ supplied done ih => exact .change ih supplied done
  | setReadable _ done ih => exact .setReadable ih done
  | setDirty _ done ih => exact .setDirty ih done
  | clearDirty _ ih => exact .clearDirty ih
  | clearReadable _ ih => exact .clearReadable ih
  | clearEntryStates _ ih => exact .clearEntryStates ih
  | clearState _ ih => exact .clearState ih
  | restrictTo _ selection ih => exact .restrictTo ih selection
  | materializeFrom _ _ done ih given => exact .materializeFrom ih given done

/-! ### What a written field holds -/

/-- The slot is as it was, but for its entry states. -/
theorem ConformsAt.kept {i : Nat} (conforms : r.ConformsAt i) (layout : r'.layout = r.layout)
    (slot : r'.slot i = r.slot i ∨ r'.slot i = (r.slot i).clearEntryStates) : r'.ConformsAt i := by
  intro field known
  have fits := conforms field (layout ▸ known)
  rcases slot with same | cleared
  · rwa [same]
  · rwa [cleared, Value.conforms_same field.schema (Value.clearEntryStates_same (r.slot i))]

/-- A call writes what conforms, and leaves what it does not write. -/
theorem change_conformsAt {change : Change} (typed : r.Typed registry) (done : change.apply r = .ok r')
    {i : Nat} (before : i ≠ change.index → r.ConformsAt i) : r'.ConformsAt i := by
  obtain ⟨does, _⟩ := Change.apply_does typed.shaped done
  obtain ⟨written, known, fits⟩ := does.fits
  by_cases here : i = change.index
  · intro field found
    rw [does.layout, here, known] at found
    obtain rfl := Option.some.inj found
    rw [does.slot, if_pos here, here]
    exact fits.result_conforms (typed.slots _ _ known)
  · exact (before here).kept does.layout (Or.inl (by rw [does.slot, if_neg here]))

theorem materializeFrom_conformsAt {source : Record Value} {selection : FieldBits} (shaped : r.Shaped registry)
    (given : source.Shaped registry) (done : r.materializeFrom source selection = .ok r') {i : Nat}
    (before : if selection.get i then source.ConformsAt i else r.ConformsAt i) : r'.ConformsAt i := by
  have within : (Operation.materialize source selection).Within registry := given
  obtain ⟨same, made⟩ := Operation.leaves shaped within done
  have slot := made.slot i
  split at before
  · rename_i selected
    rw [if_pos selected] at slot
    exact before.kept (made.layout.trans (Update.layout_of_typeName shaped given same).symm) (Or.inl slot)
  · rename_i unselected
    rw [if_neg unselected] at slot
    exact before.kept made.layout (Or.inl slot)

theorem document_writes {name : String} {compiled : CompiledRecord} {members : List (String × Json)}
    (makes : registry.MakesTyped) (known : registry.record? name = some compiled)
    (read : Document.recordOf registry compiled (.object members) = .ok r) :
    Document.Writes registry compiled.layout members (compiled.fresh compiled.layout) r := by
  have fresh := (Value.every_record.mp (makes _ _ known).2).1
  exact Document.setMembers_writes fresh.shaped read

theorem document_conformsAt {name : String} {compiled : CompiledRecord} {members : List (String × Json)}
    (makes : registry.MakesTyped) (known : registry.record? name = some compiled)
    (read : Document.recordOf registry compiled (.object members) = .ok r) {i : Nat}
    (filled : Document.Fills compiled.layout members i) : r.ConformsAt i := by
  have writes := document_writes makes known read
  obtain ⟨_, json, field, _, _, here, first⟩ := writes.written i filled
  intro found there
  rw [writes.own, (makes _ _ known).1, here] at there
  obtain rfl := Option.some.inj there
  exact (Document.valueOf_typed makes json _ _ _ first).1

/-- A document writes all that is readable, if the maker leaves nothing readable. -/
theorem document_allWritten {name : String} {compiled : CompiledRecord} {json : Json} (makes : registry.MakesTyped)
    (known : registry.record? name = some compiled)
    (fresh : ∀ i, (compiled.fresh compiled.layout).isReadable i = false)
    (read : Document.recordOf registry compiled json = .ok r) : r.AllWritten registry := by
  cases json with
  | object members =>
    refine ⟨_, .document known read, fun i isReadable => ?_⟩
    have filled := ((document_writes makes known read).readable i).mp isReadable
    rw [fresh, Bool.false_eq_true, false_or] at filled
    exact List.mem_filterMap.mpr filled
  | _ => cases read

theorem empty_isReadable (layout : Layout) (i : Nat) : (empty layout).isReadable i = false :=
  FieldBits.get_new layout.fieldCount i

theorem Written.conformsAt (makes : registry.MakesTyped) (written : r.Written registry fields) :
    ∀ i ∈ fields, r.ConformsAt i := by
  have typed {fields : List Nat} {r : Record Value} (written : r.Written registry fields) : r.Typed registry :=
    (Value.every_record.mp (written.isReached.typed makes)).1
  induction written with
  | reached => exact List.forall_mem_nil _
  | document known read => exact fun i member => document_conformsAt makes known read (List.mem_filterMap.mp member)
  | change written _ done ih =>
    intro i member
    exact change_conformsAt (typed written) done fun other => ih i ((List.mem_cons.mp member).resolve_left other)
  | setReadable _ done ih =>
    obtain ⟨_, _, made⟩ := Result.bind_ok done
    obtain rfl := Result.pure_ok made
    exact fun i member => (ih i member).kept rfl (Or.inl rfl)
  | setDirty _ done ih =>
    obtain ⟨_, _, made⟩ := Result.bind_ok done
    obtain rfl := Result.pure_ok made
    exact fun i member => (ih i member).kept rfl (Or.inl rfl)
  | clearDirty _ ih | clearReadable _ ih | restrictTo _ _ ih =>
    exact fun i member => (ih i member).kept rfl (Or.inl rfl)
  | clearEntryStates _ ih | clearState _ ih =>
    exact fun i member => (ih i member).kept rfl (Or.inr (slot_clearState _ i))
  | materializeFrom written given done ih from' =>
    intro i member
    refine materializeFrom_conformsAt (typed written).shaped (typed given).shaped done ?_
    rcases List.mem_append.mp member with taken | own
    · obtain ⟨member, selected⟩ := List.mem_filter.mp taken
      rw [if_pos selected]
      exact from' i member
    · obtain ⟨member, unselected⟩ := List.mem_filter.mp own
      rw [if_neg (by simpa using unselected)]
      exact ih i member

end Record

namespace Wire

namespace Codec

variable {codec : Codec} {r : Record Value}

/-- A record of the codec's type is written if its readable fields are. -/
theorem encode_writes (sound : codec.Sound) (typed : (Value.record r).Typed codec.registry)
    (type : r.typeName = codec.typeName) :
    Plain.Writes (codec.encode r) ↔ ∀ i field, r.isReadable i = true → r.layout.field? i = some field →
      (r.slot i).conforms field.schema = true ∧ (r.slot i).Complete codec.settings.maxDepth := by
  have self := (Value.every_record.mp typed).1
  have layout : r.layout = codec.layout := by
    have known := self.shaped.layout
    rw [type, sound.get?] at known
    exact (Option.some.inj known).symm
  have sized : (Value.record r).Every Record.Sized := typed.mono fun _ typed => typed.shaped.slots
  refine (encode_writes_iff type self.shaped.slots self.shaped.readableLen
    fun i _ => Record.every_slot sized i).trans ?_
  rw [← layout]
  refine forall_congr' fun i => ⟨fun each field isReadable known => ?_, fun each isReadable => ?_⟩
  · obtain ⟨_, found, written⟩ := each isReadable
    obtain rfl := Option.some.inj (found.symm.trans known)
    exact written
  · obtain ⟨field, known⟩ := Layout.exists_field (self.shaped.readableLen ▸ FieldBits.lt_of_get isReadable)
    exact ⟨field, known, each field isReadable known⟩

/-- A record of which all readable fields were written has a payload if and only if the records nested in them
are filled and nest within the limit. -/
theorem encode_written (made : codec.Made) (makes : codec.registry.MakesTyped)
    (written : r.AllWritten codec.registry) (type : r.typeName = codec.typeName) :
    (∃ bytes, codec.encode r = .ok bytes) ↔ ∀ i, r.isReadable i = true →
      (r.slot i).Every Record.Filled ∧ (r.slot i).depth ≤ codec.settings.maxDepth := by
  obtain ⟨fields, written, all⟩ := written
  have typed : (Value.record r).Typed codec.registry := written.isReached.typed makes
  have self := (Value.every_record.mp typed).1
  refine (encode_writes made.sound typed type).trans
    ⟨fun each i isReadable => ?_, fun each i field isReadable known => ?_⟩
  · have inside : i < r.layout.fieldCount := self.shaped.readableLen ▸ FieldBits.lt_of_get isReadable
    obtain ⟨field, known⟩ := Layout.exists_field inside
    exact (each i field isReadable known).2
  · exact ⟨written.conformsAt makes i (all i isReadable) field known, each i isReadable⟩

end Codec

end Wire

namespace Node

/-- The tail with the names that it lacks. -/
def filled : Record Value := tail.changeMap 2 fun m => m.put "a" (.int 1)

/-- An empty node with the filled one behind it. -/
def whole : Record Value := ((Record.empty layout).putSlot 1 (.record filled)).touch 1

theorem filled_slots {P : Record Value → Prop} : ∀ slot ∈ filled.slots, slot.Every P := by
  have number {n : Int32} : (Value.int n).Every P := Value.Flat.every ⟨rfl, fun _ => nofun⟩
  change ∀ slot ∈ [Value.int 7, .null, .map ⟨[("a", .int 1)], [("a", .updated)]⟩], slot.Every P
  simp only [List.forall_mem_cons]
  exact ⟨number, Value.every_null, Value.every_map.mpr (List.forall_mem_singleton.mpr number),
    List.forall_mem_nil _⟩

theorem filled_reached : filled.Reached registry := by
  refine .change tail_reached ?_ (show (Change.put 2 "a" (.int 1)).apply tail = .ok filled from rfl)
  rintro _ ⟨⟩
  exact Value.Flat.every ⟨rfl, fun _ => nofun⟩

/-- An empty node in which only the next one is set. -/
theorem front_allWritten {r r' : Record Value} (reached : r.Reached registry)
    (done : (Change.set 1 (.record r)).apply (Record.empty layout) = .ok r') : r'.AllWritten registry := by
  refine ⟨[1], .change (.reached (.empty rfl)) ?_ done, fun i isReadable => ?_⟩
  · rintro _ ⟨⟩ n inside
    exact .held reached inside
  · have empty : (Record.empty layout).Shaped registry := (Record.empty_wellFormed rfl).1
    have readable := (Change.apply_does empty done).1.readable i
    rw [isReadable, Record.empty_isReadable, Bool.false_or, eq_comm, decide_eq_true_eq] at readable
    exact List.mem_singleton.mpr readable.symm

end Node

namespace Wire.Codec

theorem encode_written_node :
    Node.registry.MakesTyped ∧ Node.whole.AllWritten Node.registry ∧
      (∀ i, Node.whole.isReadable i = true →
        (Node.whole.slot i).Every Record.Filled ∧ (Node.whole.slot i).depth ≤ Node.codec.settings.maxDepth) ∧
      ∃ bytes, Node.codec.encode Node.whole = .ok bytes := by
  have written : Node.whole.AllWritten Node.registry := Node.front_allWritten Node.filled_reached rfl
  have filled : Node.filled.Filled := by
    intro i field known
    rcases i with _ | _ | _ | i <;> cases known <;> rfl
  have complete : ∀ i, Node.whole.isReadable i = true →
      (Node.whole.slot i).Every Record.Filled ∧ (Node.whole.slot i).depth ≤ Node.codec.settings.maxDepth := by
    intro i isReadable
    rcases i with _ | _ | i
    · cases isReadable
    · exact ⟨Value.every_record.mpr ⟨filled, Node.filled_slots⟩, by decide⟩
    · rcases i with _ | i
      · cases isReadable
      · exact ⟨Value.every_null, Nat.zero_le _⟩
  have makes : Node.registry.MakesTyped := Registry.compile_makesTyped Node.compiled
  exact ⟨makes, written, complete, (encode_written Node.codec_made makes written rfl).mpr complete⟩

/-- A nested node without its names is accepted, by a call and in a document, and is not written. -/
theorem encode_refuses_unfilled :
    (Change.set 0 (.int 7)).apply (Record.empty Node.layout) = .ok Node.tail ∧
      (Change.set 1 (.record Node.tail)).apply (Record.empty Node.layout) = .ok Node.head ∧
      Node.head.AllWritten Node.registry ∧ Node.head.typeName = Node.codec.typeName ∧
      (∀ i, (Node.head.slot i).depth ≤ Node.codec.settings.maxDepth) ∧
      (∃ e, Node.codec.encode Node.head = .error e ∧ e.kind = .valueMismatch) ∧
      ∃ r, Document.recordOf Node.registry Node.codec.compiled (.object [("next", .object [])]) = .ok r ∧
        r.AllWritten Node.registry ∧ (∀ i, (r.slot i).depth ≤ Node.codec.settings.maxDepth) ∧
        ∃ e, Node.codec.encode r = .error e ∧ e.kind = .valueMismatch := by
  have written : Node.head.AllWritten Node.registry := Node.front_allWritten Node.tail_reached rfl
  have depth : ∀ i, (Node.head.slot i).depth ≤ Node.codec.settings.maxDepth := by
    intro i
    rcases i with _ | _ | _ | i
    · decide
    · decide
    · decide
    · exact Nat.zero_le _
  refine ⟨rfl, rfl, written, rfl, depth, ⟨_, rfl, rfl⟩, ?_⟩
  have read : ∃ r, Document.recordOf Node.registry Node.codec.compiled (.object [("next", .object [])]) = .ok r ∧
      r.slots = [.null, .record (Record.empty Node.layout), .null] ∧
      ∃ e, Node.codec.encode r = .error e ∧ e.kind = .valueMismatch := ⟨_, rfl, rfl, _, rfl, rfl⟩
  obtain ⟨r, read, slots, refused⟩ := read
  refine ⟨r, read, ?_, fun i => ?_, refused⟩
  · have makes : Node.registry.MakesTyped := Registry.compile_makesTyped Node.compiled
    have known : Node.registry.record? "Node" = some Node.codec.compiled := rfl
    exact Record.document_allWritten makes known (Record.empty_isReadable Node.layout) read
  · rw [Record.slot, slots]
    rcases i with _ | _ | _ | i
    · decide
    · decide
    · decide
    · exact Nat.zero_le _

end Wire.Codec

end TrackedRecord
