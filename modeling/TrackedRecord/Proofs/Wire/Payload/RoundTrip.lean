import TrackedRecord.Proofs.Wire.PackedBits
import TrackedRecord.Proofs.Wire.Payload.Contents
import TrackedRecord.Proofs.Wire.Payload.Writer
import TrackedRecord.Proofs.Wire.Plain.RoundTrip

/-!
# Payloads read back

What a payload holds is read back as it was written: the bits, the tables of entry states and the readable
fields.
-/

namespace TrackedRecord.Wire.Payload

variable {registry : Registry} {settings : Settings} {layout : Layout}

theorem decodeBitmap_reads {bits : FieldBits} (formed : bits.WellFormed) (len : bits.len = layout.fieldCount)
    (small : layout.fieldCount < wordBound) (which : String) :
    Reads (decodeBitmap layout which) (encodeBits bits) bits := by
  refine Reads.position fun start => (Decoder.varint_reads (len ▸ small)).bind ?_
  dsimp only
  rw [if_neg (not_not_intro len)]
  exact Decoder.packedBytes_reads formed

/-! ### Tables of entry states -/

theorem decodeStatesFrom_reads (small : settings.maxBytes < wordBound)
    {states before : List (String × EntryState)}
    (sorted : Keyed.Sorted (before ++ states)) (allowed : ∀ entry ∈ states, settings.AllowsText entry.1) :
    Reads (decodeStatesFrom settings states.length before) (states.flatMap encodeState)
      (before ++ states) := by
  induction states generalizing before with
  | nil =>
    rw [List.append_nil]
    exact Reads.pure _
  | cons entry rest ih =>
    obtain ⟨key, state⟩ := entry
    rw [List.forall_mem_cons] at allowed
    have sortedLater : Keyed.Sorted ((before ++ [(key, state)]) ++ rest) := by
      rwa [List.append_assoc, List.singleton_append]
    have later := ih sortedLater allowed.2
    rw [List.append_assoc, List.singleton_append] at later
    have known : EntryState.ofTag? state.tag = some state := by cases state <;> rfl
    rw [List.flatMap_cons, encodeState, List.append_assoc]
    refine Reads.position fun start =>
      (Decoder.text_reads (Nat.lt_of_le_of_lt allowed.1 small) allowed.1).bind ?_
    refine Reads.position fun tagStart => (Decoder.byte_reads state.tag).bind ?_
    rw [known]
    dsimp only
    rw [Keyed.contains_of_above sorted.above, Keyed.put_last sorted.above]
    exact later

theorem fieldStates_reads (small : settings.maxBytes < wordBound) {field : Field} {value : Value}
    (formed : value.WellFormed registry)
    (allowed : field.kind = .map → settings.AllowsTable value.mapOrEmpty.states) :
    Reads (fieldStates settings field) (encodeTable field value) (tableOf field value) := by
  unfold fieldStates encodeTable tableOf
  split
  · rename_i map
    have shaped := (Value.mapOrEmpty_wellFormed formed).1
    refine (Decoder.count_reads shaped.stateCount (allowed map).count).bind ?_
    have sorted : Keyed.Sorted ([] ++ value.mapOrEmpty.states) := shaped.states
    exact decodeStatesFrom_reads small sorted (allowed map).keys
  · exact Reads.pure _

/-! ### Fields -/

/-- A field as it comes out of a payload: plain but for the table of a map field. -/
def kept (field : Field) (value : Value) : Value := value.plain.withTable (tableOf field value)

theorem foldl_setState (states : List (String × EntryState)) (m : StateMap Value) :
    states.foldl (fun m (key, state) => m.setState key state) m =
      ⟨m.entries, states.foldl (fun all (key, state) => Keyed.put key state all) m.states⟩ := by
  induction states generalizing m with
  | nil => rfl
  | cons entry rest ih =>
    rw [List.foldl_cons, List.foldl_cons, ih]
    rfl

theorem withStates_plain {field : Field} {value : Value} (formed : value.WellFormed registry) (start : Nat) :
    withStates start (tableOf field value) value.plain = .ok (kept field value) := by
  have sorted : Keyed.Sorted (tableOf field value) := by
    unfold tableOf
    split
    · exact (Value.mapOrEmpty_wellFormed formed).1.states
    · exact List.Pairwise.nil
  unfold kept
  cases value with
  | map m =>
    rw [Value.plain_map, withStates, foldl_setState]
    exact congrArg (fun states => Except.ok (Value.map ⟨_, states⟩)) (Keyed.ofList_sorted sorted)
  | _ =>
    have none : ∀ {value : Value}, value.mapOrEmpty.states = [] → tableOf field value = [] := by
      intro value empty
      unfold tableOf
      split
      · exact empty
      · rfl
    rw [none rfl]
    rfl

theorem readField_reads (sound : registry.Sound) (small : settings.maxBytes < wordBound) {name : String}
    {field : Field}
    {value : Value} (formed : value.WellFormed registry) (within : value.Within settings)
    (allowed : field.kind = .map → settings.AllowsTable value.mapOrEmpty.states) {bytes : List UInt8}
    (encoded : encodeField settings.maxDepth name field value = .ok bytes) :
    Reads (readField registry settings field none) bytes (kept field value) := by
  obtain ⟨encoded, written, rfl⟩ := encodeField_ok.mp encoded
  refine (fieldStates_reads small formed allowed).bind (Reads.position fun start => ?_)
  refine (Plain.decode_recovers sound small _ _ formed within written).bind_nil ?_
  rw [withStates_plain formed]
  exact Reads.pure _

/-- The value that is read back from slot `index`. -/
def Restored (layout : Layout) (slots : List Value) (index : Nat) (value : Value) : Prop :=
  ∃ field old, layout.fields[index]? = some field ∧ slots[index]? = some old ∧ value = kept field old

theorem readFields_reads (sound : registry.Sound) (small : settings.maxBytes < wordBound) {slots : List Value}
    (formed : ∀ slot ∈ slots, slot.WellFormed registry) {indices : List Nat}
    (within : ∀ index ∈ indices, ∀ field value, layout.fields[index]? = some field →
      slots[index]? = some value →
      value.Within settings ∧ (field.kind = .map → settings.AllowsTable value.mapOrEmpty.states))
        {bytes : List UInt8}
    (encoded : encodeFields settings.maxDepth layout slots indices = .ok bytes) :
    ∃ values, Reads (readFields registry settings layout indices) bytes values ∧
      ∀ entry ∈ values, Restored layout slots entry.1 entry.2 := by
  induction indices generalizing bytes with
  | nil =>
    cases encoded
    exact ⟨[], Reads.pure _, List.forall_mem_nil _⟩
  | cons index rest ih =>
    rw [List.forall_mem_cons] at within
    obtain ⟨field, value, first, others, found, present, head, tail, rfl⟩ := encodeFields_cons.mp encoded
    obtain ⟨values, reads, restored⟩ := ih within.2 tail
    obtain ⟨withinValue, allowed⟩ := within.1 field value found present
    refine ⟨(index, kept field value) :: values, ?_, ?_⟩
    · rw [readFields, found]
      have one := readField_reads sound small (formed value (List.mem_of_getElem? present)) withinValue
        allowed head
      exact one.within.bind reads.map
    · exact List.forall_mem_cons.mpr ⟨⟨field, value, found, present, rfl⟩, restored⟩

/-! ### Payloads -/

theorem read_reads (sound : registry.Sound) (small : settings.maxBytes < wordBound)
    (sized : layout.fieldCount < wordBound) {r : Record Value} (formed : r.WellFormed registry)
    (same : r.layout = layout)
    (within : r.Within settings) {bytes : List UInt8}
    (encoded : encode settings.maxDepth layout r = .ok bytes) :
    ∃ values, Reads (read registry settings layout) bytes ⟨r.dirty, r.readable, values⟩ ∧
      ∀ entry ∈ values, Restored layout r.slots entry.1 entry.2 := by
  subst same
  obtain ⟨shaped, formedSlots⟩ := formed
  obtain ⟨fields, written, rfl⟩ := encode_ok.mp encoded
  have shown : ∀ index ∈ r.readable.ones, ∀ field value, r.layout.fields[index]? = some field →
    r.slots[index]? = some value →
      value.Within settings ∧ (field.kind = .map → settings.AllowsTable value.mapOrEmpty.states) := by
    intro index member field value found present
    have slot : r.slot index = value := by
      rw [Record.slot, List.getD_eq_getElem?_getD, present, Option.getD_some]
    rw [← slot]
    exact within index field found (FieldBits.mem_ones.mp member)
  obtain ⟨values, reads, restored⟩ := readFields_reads sound small formedSlots shown written
  refine ⟨values, ?_, restored⟩
  rw [List.append_assoc]
  refine (decodeBitmap_reads shaped.dirty shaped.dirtyLen sized _).bind ?_
  refine (decodeBitmap_reads shaped.readable shaped.readableLen sized _).bind ?_
  exact reads.map

theorem contentsOf_of_reads {bytes : List UInt8} {contents : Contents}
    (reads : Reads (read registry settings layout) bytes contents) :
    contentsOf registry settings layout bytes = .ok contents := by
  have run := reads [] 0
  rw [List.append_nil] at run
  unfold contentsOf
  rw [Cursor.start, Decoder.whole_of_ok run, if_pos rfl]

end TrackedRecord.Wire.Payload
