import TrackedRecord.Proofs.Record.Delta
import TrackedRecord.Proofs.Record.Marked
import TrackedRecord.Proofs.Wire.Codec

/-!
# Conversion of documents

A value that is read conforms to its schema, so no field refuses it: what fails is the document. A document
is read exactly if its keys are fields and its members are values of them. The record then has the marks of these
fields and no others, and the records inside it have none.
-/

namespace TrackedRecord

/-- The document does not fit; no call on a record was refused. -/
def RecordError.OfDocument : RecordError → Prop
  | .unfit .. | .unknownField .. => True
  | _ => False

/-- No field is marked and no entry has a state. -/
structure Record.Unmarked (r : Record Value) : Prop extends r.Clean where
  readable : ∀ i, r.isReadable i = false

theorem Record.clearState_unmarked (r : Record Value) : r.clearState.Unmarked where
  toClean := clearState_clean r
  readable i := FieldBits.get_clearAll r.readable i

theorem Record.empty_unmarked (layout : Layout) : (empty layout).Unmarked where
  dirty i := by simp [isDirty, empty]
  readable i := by simp [isReadable, empty]
  states i := by
    rw [slot_empty]
    rfl

theorem Record.Unmarked.putSlot {r : Record Value} (unmarked : r.Unmarked) {j : Nat} (inside : j < r.slots.length)
    {value : Value} (stateless : value.mapOrEmpty.states = []) : (r.putSlot j value).Unmarked where
  dirty := unmarked.dirty
  readable := unmarked.readable
  states i := by
    rw [slot_putSlot inside]
    split
    · exact stateless
    · exact unmarked.states i

namespace StateMap

theorem AllUpdated.state_entry {α : Type} {m : StateMap α} (updated : m.AllUpdated) {entry : String × α}
    (member : entry ∈ m.entries) : m.state? entry.1 = some .updated := by
  have found : Keyed.get? entry.1 m.states = some .updated := by
    have state : (entry.1, EntryState.updated) ∈ m.states := by
      rw [updated.states]
      exact List.mem_map.mpr ⟨entry, member, rfl⟩
    exact updated.statesSorted.get?_mem state
  rw [StateMap.state?, found]
  rfl

end StateMap

namespace Document

variable {registry home : Registry} {path : String}

/-! ### Errors -/

open RecordError (OfDocument)

theorem refuse_raises {α : Type} (path : String) (cause : Unfit) :
    Result.Raises OfDocument (refuse path cause : Except RecordError α) := .error trivial

theorem require_raises {α : Type} (path : String) (cause : Unfit) (found : Option α) :
    Result.Raises OfDocument (require path cause found) := by
  cases found with
  | none => exact refuse_raises path cause
  | some a => exact .ok a

theorem bytesOf_raises (path : String) (json : Json) : Result.Raises OfDocument (bytesOf path json) :=
  (require_raises path _ _).bind fun _ => require_raises path _ _

theorem primitiveOf_raises (path : String) (kind : Primitive) (json : Json) :
    Result.Raises OfDocument (primitiveOf path kind json) := by
  cases kind with
  | bytes => exact (bytesOf_raises path json).map
  | _ => exact (require_raises path _ _).map

theorem enumOf_raises (path : String) (e : EnumType) (json : Json) :
    Result.Raises OfDocument (enumOf path e json) :=
  (require_raises path _ _).bind fun _ => (require_raises path _ _).part

theorem fixedOf_raises (path : String) (f : FixedType) (json : Json) :
    Result.Raises OfDocument (fixedOf path f json) := by
  refine (bytesOf_raises path json).bind fun data => ?_
  split
  · exact refuse_raises path _
  · exact .ok _

/-- Reading the document fails by the document, whatever it is read for. -/
def Blames (registry : Registry) (json : Json) : Prop :=
  ∀ path schema, Result.Raises OfDocument (valueOf registry path schema json)

theorem itemsOf_raises {path : String} {element : Schema} {i : Nat} {items : List Json}
    (each : ∀ item ∈ items, Blames registry item) :
    Result.Raises OfDocument (itemsOf registry path element i items) := by
  induction items generalizing i with
  | nil => rw [itemsOf]; exact .ok []
  | cons item rest ih =>
    rw [List.forall_mem_cons] at each
    rw [itemsOf]
    exact (each.1 _ _).parts (ih each.2)

theorem putEntries_raises {path : String} {schema : Schema} {m : StateMap Value} {members : List (String × Json)}
    (each : ∀ member ∈ members, Blames registry (Prod.snd member)) :
    Result.Raises OfDocument (putEntries registry path schema m members) := by
  induction members generalizing m with
  | nil => rw [putEntries]; exact .ok m
  | cons member rest ih =>
    obtain ⟨key, json⟩ := member
    rw [List.forall_mem_cons] at each
    rw [putEntries]
    exact (each.1 _ _).bind fun _ => ih each.2

/-- A field takes each value that is read for it. -/
theorem set_read (makes : MakesNamed registry) {r : Record Value} {i : Nat} {field : Field} {path : String} {json : Json}
    {value : Value} (known : r.layout.field? i = some field)
    (read : valueOf registry path field.schema json = .ok value) :
    r.set i value = .ok ((r.putSlot i value).touch i) := by
  have fits : (Change.set i value).Fits field := valueOf_conforms makes json _ _ _ read
  exact Change.apply_ok.mpr ⟨field, known, fits, rfl⟩

theorem exists_of_indexOf? {layout : Layout} {name : String} {i : Nat} (found : layout.indexOf? name = some i) :
    ∃ field, layout.field? i = some field :=
  Layout.exists_field (List.findIdx?_eq_some_iff_getElem.mp found).1

theorem setMembers_raises (makes : MakesNamed registry) {layout : Layout} {r : Record Value}
    (own : r.layout = layout) {members : List (String × Json)}
    (each : ∀ member ∈ members, Blames registry (Prod.snd member)) :
    Result.Raises OfDocument (setMembers registry layout r members) := by
  induction members generalizing r with
  | nil => rw [setMembers]; exact .ok r
  | cons member rest ih =>
    obtain ⟨name, json⟩ := member
    rw [List.forall_mem_cons] at each
    rw [setMembers]
    cases found : layout.indexOf? name with
    | none =>
      have refused : layout.indexOf name = .error (.unknownField layout.fullName name) := by
        rw [Layout.indexOf, found]
      rw [refused]
      exact .error trivial
    | some i =>
      obtain ⟨field, known⟩ := exists_of_indexOf? found
      rw [Result.bind_of_ok (Layout.indexOf_ok.mpr found), Result.bind_of_ok (Layout.fieldAt_ok.mpr known)]
      cases read : valueOf registry (layout.name ++ "." ++ name) field.schema json with
      | error e => exact .error (each.1 _ _ e read)
      | ok value =>
        change Result.Raises OfDocument (r.set i value >>= fun r => setMembers registry layout r rest)
        rw [Result.bind_of_ok (set_read makes (own ▸ known) read)]
        exact ih own each.2

/-- With makers of their own layouts, reading a document only fails by it. -/
theorem valueOf_raises (own : MakesOwn registry) (json : Json) : Blames registry json := by
  induction json using Json.induction with
  | step json ih =>
    intro path schema
    unfold valueOf
    refine .ite (.ok _) ?_
    split
    · exact primitiveOf_raises _ _ _
    · exact enumOf_raises _ _ _
    · exact fixedOf_raises _ _ _
    · refine (require_raises _ _ _).bind_given fun compiled known => ?_
      exact (setMembers_raises own.named (own _ _ (require_ok.mp known)) (List.forall_mem_map.mp ih)).part
    · exact (require_raises _ _ _).bind fun _ => refuse_raises _ _
    · exact (itemsOf_raises ih).part
    · exact refuse_raises _ _
    · exact (putEntries_raises (List.forall_mem_map.mp ih)).part
    · exact refuse_raises _ _
    · exact (require_raises _ _ _).part
    · split
      · exact (ih _ List.mem_cons_self _ _).part
      · exact refuse_raises _ _
    · exact refuse_raises _ _

/-! ### Documents that are read -/

/-- The key is a field and the member is a value of it. -/
def Converts (registry : Registry) (layout : Layout) (member : String × Json) : Prop :=
  ∃ i field value, layout.indexOf? member.1 = some i ∧ layout.field? i = some field ∧
    valueOf registry (layout.name ++ "." ++ member.1) field.schema member.2 = .ok value

theorem setMembers_succeeds (makes : MakesNamed registry) {layout : Layout} {r : Record Value}
    (own : r.layout = layout) {members : List (String × Json)} :
    (∃ r', setMembers registry layout r members = .ok r') ↔
      ∀ member ∈ members, Converts registry layout member := by
  induction members generalizing r with
  | nil => exact ⟨fun _ => List.forall_mem_nil _, fun _ => ⟨r, by rw [setMembers]⟩⟩
  | cons member rest ih =>
    obtain ⟨name, json⟩ := member
    rw [List.forall_mem_cons, setMembers]
    constructor
    · rintro ⟨r', read⟩
      obtain ⟨i, found, ofField⟩ := Result.bind_ok read
      obtain ⟨field, known, ofValue⟩ := Result.bind_ok ofField
      obtain ⟨value, first, ofNext⟩ := Result.bind_ok ofValue
      obtain ⟨next, set, later⟩ := Result.bind_ok ofNext
      rw [Layout.fieldAt_ok] at known
      exact ⟨⟨i, field, value, Layout.indexOf_ok.mp found, known, first⟩,
        (ih ((set_layout set).trans own)).mp ⟨r', later⟩⟩
    · rintro ⟨⟨i, field, value, found, known, first⟩, others⟩
      have set := set_read makes (own ▸ known) first
      obtain ⟨r', later⟩ := (ih ((set_layout set).trans own)).mpr others
      refine ⟨r', ?_⟩
      rw [Result.bind_of_ok (Layout.indexOf_ok.mpr found), Result.bind_of_ok (Layout.fieldAt_ok.mpr known),
        Result.bind_of_ok first, Result.bind_of_ok set]
      exact later

/-! ### Marks inside -/

/-- Makers give instances without marks, also further inside. -/
def MakesUnmarked (registry : Registry) : Prop :=
  ∀ name compiled, registry.record? name = some compiled →
    (Value.record (compiled.fresh compiled.layout)).Every Record.Unmarked

theorem empty_unmarked (layout : Layout) : (Value.record (Record.empty layout)).Every Record.Unmarked := by
  refine Value.every_record.mpr ⟨Record.empty_unmarked layout, fun slot member => ?_⟩
  rw [List.eq_of_mem_replicate member]
  exact Value.every_null

theorem makesUnmarked_of_compile {catalog : Catalog} {roots : List Schema}
    (compiled : Registry.compile catalog roots = .ok registry) : MakesUnmarked registry := by
  intro name type known
  rw [Registry.compile_fresh compiled type (List.mem_of_find?_eq_some known)]
  exact empty_unmarked type.layout

/-- What is read of the document has no marks. -/
def GivesUnmarked (registry : Registry) (json : Json) : Prop :=
  ∀ path schema value, valueOf registry path schema json = .ok value → value.Every Record.Unmarked

theorem setMembers_unmarked {layout : Layout} {members : List (String × Json)} {r r' : Record Value}
    (each : ∀ member ∈ members, GivesUnmarked registry (Prod.snd member))
    (before : ∀ slot ∈ r.slots, slot.Every Record.Unmarked)
    (read : setMembers registry layout r members = .ok r') :
    ∀ slot ∈ r'.slots, slot.Every Record.Unmarked := by
  refine setMembers_induction (P := fun r => ∀ slot ∈ r.slots, slot.Every Record.Unmarked) ?_ before read
  intro member inside r next path index field value before _ first set
  obtain ⟨_, _, _, rfl⟩ := Change.apply_ok.mp (show (Change.set index value).apply r = .ok next from set)
  intro slot written
  rcases List.mem_or_eq_of_mem_set written with old | rfl
  · exact before slot old
  · exact each member inside _ _ _ first

theorem Reads.unmarked {schema : Schema} {json : Json} {value : Value} (makes : MakesUnmarked registry)
    (parts : ∀ part ∈ json.parts, GivesUnmarked registry part) (reads : Reads registry path schema json value) :
    value.Every Record.Unmarked := by
  cases reads with
  | primitive read => exact (Value.flat_of_primitive (primitiveOf_conforms read)).every
  | enum read =>
    obtain ⟨ordinal, rfl, _⟩ := enumOf_conforms read
    exact (Value.flat_enum _).every
  | fixed read =>
    obtain ⟨data, rfl, _⟩ := fixedOf_conforms read
    exact (Value.flat_fixed _).every
  | @record _ _ _ r known read =>
    have slots := setMembers_unmarked (List.forall_mem_map.mp parts)
      (Value.every_record.mp (makes _ _ known)).2 read
    refine Value.every_record.mpr ⟨r.clearState_unmarked, fun slot member => ?_⟩
    obtain ⟨old, before, rfl⟩ := List.mem_map.mp member
    exact (slots old before).clearEntryStates
  | array read =>
    exact Value.every_array.mpr (itemsOf_forall (fun item inside path value => parts item inside path _ value) read)
  | map read =>
    exact Value.every_map.mpr (putEntries_forall (fun member inside path value =>
      List.forall_mem_map.mp parts member inside path _ value) (List.forall_mem_nil _) read)
  | nullBranch => exact Value.every_union.mpr Value.every_null
  | labelled _ read => exact Value.every_union.mpr (parts _ List.mem_cons_self _ _ _ read)

theorem valueOf_unmarked (makes : MakesUnmarked registry) (json : Json) : GivesUnmarked registry json := by
  induction json using Json.induction with
  | step json ih =>
    intro path schema value read
    rw [valueOf_ok] at read
    split at read
    · subst read
      exact Value.every_null
    · exact read.unmarked makes ih

/-- Each entry of a map that is read is updated. -/
theorem valueOf_updated {schema : Schema} {json : Json} {m : StateMap Value}
    (read : valueOf registry path schema json = .ok (.map m)) : m.AllUpdated := by
  rw [valueOf_ok] at read
  split at read
  · cases read
  · generalize schema.core = core at read
    cases read with
    | primitive read =>
      rename_i kind
      cases kind <;> obtain ⟨_, _, absurd⟩ := Result.map_ok.mp read <;> cases absurd
    | enum read =>
      obtain ⟨_, absurd, _⟩ := enumOf_conforms read
      cases absurd
    | fixed read =>
      obtain ⟨_, absurd, _⟩ := fixedOf_conforms read
      cases absurd
    | map read => exact putEntries_empty_updated read

/-! ### The record of a document -/

/-- The type's maker gives an instance without marks. -/
structure MakesNew (home : Registry) (compiled : CompiledRecord) : Prop where
  shaped : (compiled.fresh compiled.layout).Shaped home
  unmarked : (Value.record (compiled.fresh compiled.layout)).Every Record.Unmarked

/-- What a document leaves of a new instance: its fields are marked, and their maps are all updates. -/
structure Describes (registry : Registry) (layout : Layout) (members : List (String × Json))
    (fresh r : Record Value) : Prop extends Writes registry layout members fresh r where
  marked : ∀ i, (r.isDirty i = true ↔ Fills layout members i) ∧ (r.isReadable i = true ↔ Fills layout members i)
  updated : ∀ i m, r.slot i = .map m →
    (¬Fills layout members i → (fresh.slot i).mapOrEmpty.entries = []) →
    ∀ entry ∈ m.entries, m.state? entry.1 = some .updated
  inside : ∀ i, (r.slot i).Every Record.Unmarked

theorem setMembers_describes (makes : MakesUnmarked registry) {layout : Layout} {fresh r : Record Value}
    (shaped : fresh.Shaped home) (unmarked : (Value.record fresh).Every Record.Unmarked)
    {members : List (String × Json)} (read : setMembers registry layout fresh members = .ok r) :
    Describes registry layout members fresh r := by
  have writes := setMembers_writes shaped read
  obtain ⟨clear, slots⟩ := Value.every_record.mp unmarked
  refine ⟨writes, fun i => ⟨?_, ?_⟩, fun i m here untouched entry member => ?_, fun i => ?_⟩
  · simp only [writes.dirty, clear.dirty, Bool.false_eq_true, false_or]
  · simp only [writes.readable, clear.readable, Bool.false_eq_true, false_or]
  · by_cases filled : Fills layout members i
    · obtain ⟨_, _, _, _, _, _, first⟩ := writes.written i filled
      rw [here] at first
      exact (valueOf_updated first).state_entry member
    · have none := untouched filled
      rw [← writes.kept i filled, here] at none
      rw [show m.entries = [] from none] at member
      cases member
  · have after := setMembers_unmarked (fun member _ => valueOf_unmarked makes member.2) slots read
    rcases Record.slot_mem_or_null r i with present | absent
    · exact after _ present
    · rw [absent]
      exact Value.every_null

/-- What is read conforms if the makers give instances of their types. A document is read for a type whose maker
gives its own layout exactly if each of its members is a value of a field; if all makers do, what fails is the
document. With makers of unmarked instances the record is as the document describes. -/
theorem recordOf_exact :
    (MakesNamed registry →
      (∀ path schema json value, valueOf registry path schema json = .ok value → value.conforms schema = true) ∧
      ∀ compiled : CompiledRecord, (compiled.fresh compiled.layout).layout = compiled.layout → ∀ members,
        (∃ r, recordOf registry compiled (.object members) = .ok r) ↔
          ∀ member ∈ members, Converts registry compiled.layout member) ∧
      (MakesOwn registry →
        (∀ path schema json e, valueOf registry path schema json = .error e → e.OfDocument) ∧
        ∀ compiled : CompiledRecord, (compiled.fresh compiled.layout).layout = compiled.layout → ∀ json e,
          recordOf registry compiled json = .error e → e.OfDocument) ∧
      (MakesUnmarked registry → ∀ home compiled, MakesNew home compiled → ∀ members r,
        recordOf registry compiled (.object members) = .ok r →
          Describes registry compiled.layout members (compiled.fresh compiled.layout) r) := by
  refine ⟨fun makes => ⟨fun path schema json => valueOf_conforms makes json path schema, ?_⟩,
    fun own => ⟨fun path schema json => valueOf_raises own json path schema, ?_⟩, ?_⟩
  · exact fun compiled own members => setMembers_succeeds makes own
  · intro compiled ownLayout json
    unfold recordOf
    split
    · exact setMembers_raises own.named ownLayout fun member _ => valueOf_raises own member.2
    · exact refuse_raises _ _
  · exact fun makes home compiled new members r read => setMembers_describes makes new.shaped new.unmarked read

/-- A node that leaves out its number and has another node and a map. -/
def nodeMembers : List (String × Json) :=
  [("named", .object [("b", Json.int 2)]),
    ("next", .object [("named", .object [("a", Json.int 1)]), ("number", Json.int 7)])]

theorem recordOf_exact_node :
    (∃ value, valueOf Node.registry "Node" (.record Node.type) (.object nodeMembers) = .ok value ∧
      value.conforms (.record Node.type) = true) ∧
      (∀ member ∈ nodeMembers, Converts Node.registry Node.layout member) ∧
      (∃ e, recordOf Node.registry Node.codec.compiled (.object [("number", .null)]) = .error e ∧ e.OfDocument) ∧
      ∃ r, recordOf Node.registry Node.codec.compiled (.object nodeMembers) = .ok r ∧
        Describes Node.registry Node.layout nodeMembers (Record.empty Node.layout) r := by
  have own : MakesOwn Node.registry := fun _ _ known => (Node.registry_built.sound.makes known).1
  have new : MakesNew Node.registry Node.codec.compiled :=
    ⟨(Record.empty_wellFormed rfl).1, empty_unmarked Node.layout⟩
  obtain ⟨named, owned, unmarked⟩ := @recordOf_exact Node.registry
  obtain ⟨values, records⟩ := named own.named
  refine ⟨?_, ?_, ?_, ?_⟩
  · have read : ∃ value, valueOf Node.registry "Node" (.record Node.type) (.object nodeMembers) = .ok value :=
      ⟨_, rfl⟩
    obtain ⟨value, read⟩ := read
    exact ⟨value, read, values _ _ _ value read⟩
  · exact (records Node.codec.compiled rfl nodeMembers).mp ⟨_, rfl⟩
  · have refused : ∃ e, recordOf Node.registry Node.codec.compiled (.object [("number", .null)]) = .error e :=
      ⟨_, rfl⟩
    obtain ⟨e, refused⟩ := refused
    exact ⟨e, refused, (owned own).2 Node.codec.compiled rfl _ e refused⟩
  · have read : ∃ r, recordOf Node.registry Node.codec.compiled (.object nodeMembers) = .ok r := ⟨_, rfl⟩
    obtain ⟨r, read⟩ := read
    exact ⟨r, read, unmarked (makesUnmarked_of_compile Node.compiled) Node.registry _ new _ r read⟩

end Document

/-! ### Makers of other types -/

namespace Node

/-- A type that is compiled beside the nodes. -/
def note : RecordRef := ⟨"Note", none, 1⟩

def noteFields : List FieldType := [⟨"text", .primitive .string⟩]

def noteLayout : Layout := ⟨"Note", "Note", none, Layout.fieldsOf noteFields⟩

def both : Registry := { records := [{ type, layout }, { type := note, layout := noteLayout }] }

/-- The registry in which notes are made for nodes. -/
def swapped : Registry := (both.setFactory "Node" fun _ => Record.empty noteLayout).2

def entry : Value := .map ⟨[("a", .int 1)], []⟩

/-- Nodes that are made with an entry, which has no state. -/
def stockedNode : CompiledRecord where
  type := type
  layout := layout
  fresh layout := (Record.empty layout).putSlot 2 entry

def stocked : Registry := (both.setFactory "Node" stockedNode.fresh).2

theorem stocked_makesNew : Document.MakesNew stocked stockedNode where
  shaped := by
    have empty : (Record.empty layout).Shaped stocked := (Record.empty_wellFormed rfl).1
    exact ⟨empty.layout, rfl, empty.dirty, rfl, empty.readable, rfl⟩
  unmarked := by
    have one : entry.Every Record.Unmarked := Value.every_map.mpr fun entry member => by
      rw [List.mem_singleton.mp member]
      exact Value.Flat.every ⟨rfl, fun _ => nofun⟩
    refine Value.every_record.mpr ⟨(Record.empty_unmarked layout).putSlot (by decide) rfl, ?_⟩
    change ∀ slot ∈ [Value.null, .null, entry], slot.Every Record.Unmarked
    simp only [List.forall_mem_cons]
    exact ⟨Value.every_null, Value.every_null, one, List.forall_mem_nil _⟩

/-- Nodes that are made without marks, with a marked node behind them. -/
def trailedNode : CompiledRecord where
  type := type
  layout := layout
  fresh layout := (Record.empty layout).putSlot 1 (.record (((Record.empty layout).putSlot 0 (.int 7)).touch 0))

def trailed : Registry := (both.setFactory "Node" trailedNode.fresh).2

end Node

/-- A maker may give an instance of another type: what is read for the schema then does not conform to it, and a
member that is a value of its field is refused by the record. An instance without marks may all the same hold entries,
which stay without states where the document does not name their field, and marked records. -/
theorem Document.recordOf_swapped :
    Registry.compile ⟨[⟨"Node", none, none, some (FieldSchema.numbered Node.fields)⟩,
          ⟨"Note", none, none, some (FieldSchema.numbered Node.noteFields)⟩]⟩
        [.record Node.type, .record Node.note] = .ok Node.both ∧
      (∃ value, valueOf Node.swapped "Node" (.record Node.type) (.object []) = .ok value ∧
        value.conforms (.record Node.type) = false) ∧
      (∃ compiled, Node.swapped.record? "Node" = some compiled ∧ compiled.layout = Node.layout ∧
        Converts Node.swapped compiled.layout ("number", Json.int 7) ∧
        recordOf Node.swapped compiled (.object [("number", Json.int 7)]) =
          .error (.wrongType "text" "string" "int")) ∧
      (Node.stocked.record? "Node" = some Node.stockedNode ∧ MakesNew Node.stocked Node.stockedNode ∧
        ∃ r m, recordOf Node.stocked Node.stockedNode (.object []) = .ok r ∧ r.slot 2 = .map m ∧
          m.keys = ["a"] ∧ m.state? "a" = some .unchanged) ∧
      Node.trailed.record? "Node" = some Node.trailedNode ∧ (Node.trailedNode.fresh Node.layout).Unmarked ∧
        ∃ r n, recordOf Node.trailed Node.trailedNode (.object []) = .ok r ∧ r.slot 1 = .record n ∧
          n.isReadable 0 = true := by
  refine ⟨rfl, ⟨_, rfl, rfl⟩, ⟨_, rfl, rfl, ?_, rfl⟩,
    ⟨rfl, Node.stocked_makesNew, _, _, rfl, rfl, rfl, rfl⟩, rfl, ?_, _, _, rfl, rfl, rfl⟩
  · exact ⟨0, _, _, rfl, rfl, rfl⟩
  · exact (Record.empty_unmarked Node.layout).putSlot (by decide) rfl

end TrackedRecord
