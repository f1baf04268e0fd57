import TrackedRecord.Proofs.Wire.Admitted
import TrackedRecord.Proofs.Wire.Joined
import TrackedRecord.Proofs.Wire.Loosened
import TrackedRecord.Proofs.Wire.Plain.Nesting
import TrackedRecord.Proofs.Wire.Typed

/-!
# How deep records nest

No bytes make a codec decode deeper than its settings allow. A record that is written is read by just those
codecs of its type that would write it themselves, as far as depth is concerned.
-/

namespace TrackedRecord

/-- At most `k` records stand inside each other in a readable slot. -/
def Record.Nests (k : Nat) (r : Record Value) : Prop := ∀ i, r.isReadable i = true → (r.slot i).depth ≤ k

namespace Wire

open Decoder (Gives)
open Plain (Shallow)

variable {registry : Registry} {settings wider : Settings} {layout : Layout}

/-! ### Wider limits admit more -/

theorem Settings.Narrower.text (narrower : settings.Narrower wider) {s : String}
    (allowed : settings.AllowsText s) : wider.AllowsText s :=
  Nat.le_trans allowed narrower.bytes

theorem Settings.Narrower.value (narrower : settings.Narrower wider) {value : Value}
    (within : value.Within settings) : value.Within wider := by
  induction value using Value.induction with
  | record layout slots dirty readable ih =>
    exact Value.within_record.mpr fun slot inside => ih slot inside (Value.within_record.mp within slot inside)
  | array items ih =>
    obtain ⟨count, each⟩ := Value.within_array.mp within
    exact Value.within_array.mpr ⟨Nat.le_trans count narrower.collection,
      fun item inside => ih item inside (each item inside)⟩
  | map entries states ih =>
    obtain ⟨count, each⟩ := Value.within_map.mp within
    exact Value.within_map.mpr ⟨Nat.le_trans count narrower.collection,
      fun entry inside => ⟨narrower.text (each entry inside).1, ih entry inside (each entry inside).2⟩⟩
  | union branch value ih => exact Value.within_union.mpr (ih (Value.within_union.mp within))
  | bytes data => exact Nat.le_trans within narrower.bytes
  | string s => exact narrower.text within
  | _ => trivial

theorem Settings.Narrower.record (narrower : settings.Narrower wider) {r : Record Value}
    (within : r.Within settings) : r.Within wider := by
  intro index field found readable
  obtain ⟨value, table⟩ := within index field found readable
  refine ⟨narrower.value value, fun map => ⟨Nat.le_trans (table map).count narrower.collection, ?_⟩⟩
  exact fun entry member => narrower.text ((table map).keys entry member)

/-! ### Payloads -/

namespace Payload

theorem depth_kept (field : Field) (value : Value) : (kept field value).depth = value.depth := by
  rw [kept, Value.depth_withTable, Value.depth_plain]

theorem decodeField_shallow (field : Field) (slots : List Value) (index : Nat) :
    Shallow settings.maxDepth (decodeField registry settings field slots index) := by
  cases present : slots[index]? with
  | none =>
    rw [decodeField_none present]
    exact (Gives.any _).bind fun _ _ => Gives.throw _
  | some previous =>
    rw [decodeField_some present]
    refine (Gives.any _).bind fun states _ => (Gives.any _).bind fun start _ => ?_
    refine (Plain.decode_shallow registry settings settings.maxDepth field.schema _).bind fun value shallow => ?_
    cases given : withStates start states value with
    | error e => exact Gives.throw e
    | ok result =>
      obtain ⟨table, rfl⟩ := withStates_table given
      refine Gives.pure ?_
      rwa [Value.depth_withTable]

/-- The slots of the indices are read, all others stay. -/
theorem decodeFields_shallow (indices : List Nat) (slots : List Value) :
    Gives (fun after => (∀ i ∈ indices, (after.getD i .null).depth ≤ settings.maxDepth) ∧
      ∀ i ∉ indices, after.getD i .null = slots.getD i .null)
      (decodeFields registry settings layout indices slots) := by
  induction indices generalizing slots with
  | nil => exact Gives.pure ⟨List.forall_mem_nil _, fun _ _ => rfl⟩
  | cons index rest ih =>
    unfold decodeFields
    cases layout.fields[index]? with
    | none => exact Gives.throw _
    | some field =>
      refine (decodeField_shallow field slots index).within.bind fun value shallow => ?_
      intro c after c' run
      obtain ⟨read, others⟩ := ih (slots.set index value) c after c' run
      refine ⟨fun i member => ?_, fun i absent => ?_⟩
      · by_cases later : i ∈ rest
        · exact read i later
        · -- the slot holds the value still, unless there is no such slot
          obtain rfl := (List.mem_cons.mp member).resolve_right later
          rw [others i later, List.getD_eq_getElem?_getD, List.getElem?_set]
          split
          · split
            · exact shallow
            · exact Nat.zero_le _
          · contradiction
      · rw [List.mem_cons, not_or] at absent
        rw [others i absent.2, List.getD_eq_getElem?_getD, List.getElem?_set_ne (Ne.symm absent.1),
          List.getD_eq_getElem?_getD]

theorem fill_nests (target : Record Value) :
    Gives (Record.Nests settings.maxDepth) (fill registry settings layout target) := by
  refine (Gives.any _).bind fun dirty _ => (Gives.any _).bind fun readable _ => ?_
  refine (decodeFields_shallow readable.ones target.slots).map fun slots after i isReadable => ?_
  exact after.1 i (FieldBits.mem_ones.mpr isReadable)

theorem encodeField_extends {maxDepth maxDepth' : Nat} (le : maxDepth ≤ maxDepth') {name : String} {field : Field}
    {value : Value} {bytes : List UInt8} (written : encodeField maxDepth name field value = .ok bytes) :
    encodeField maxDepth' name field value = .ok bytes := by
  obtain ⟨encoded, plain, rfl⟩ := encodeField_ok.mp written
  exact encodeField_ok.mpr ⟨encoded, Plain.encode_extends le field.schema value encoded plain, rfl⟩

theorem encodeFields_extends {maxDepth maxDepth' : Nat} (le : maxDepth ≤ maxDepth') {slots : List Value}
    {indices : List Nat} {bytes : List UInt8} (written : encodeFields maxDepth layout slots indices = .ok bytes) :
    encodeFields maxDepth' layout slots indices = .ok bytes := by
  induction indices generalizing bytes with
  | nil => exact written
  | cons index rest ih =>
    obtain ⟨field, value, first, others, found, present, head, tail, rfl⟩ := encodeFields_cons.mp written
    exact encodeFields_cons.mpr
      ⟨field, value, first, others, found, present, encodeField_extends le head, ih tail, rfl⟩

end Payload

namespace Codec

variable {codec codec' : Codec} {r : Record Value} {bytes : List UInt8}

/-! ### Reading -/

theorem decode_nests {reuse : Option (Record Value)} {d : Record Value}
    (decoded : (codec.decode bytes reuse).1 = .ok d) : d.Nests codec.settings.maxDepth := by
  rcases codec.decode_target reuse with ⟨e, failed⟩ | ⟨target, into⟩
  · rw [failed] at decoded
    cases decoded
  · rw [into] at decoded
    obtain ⟨c, run⟩ := decodeInto_ok decoded
    exact Payload.fill_nests _ _ _ _ (Decoder.whole_ok run).1

/-- Records that a codec may decode into. -/
def Reuses (codec : Codec) (reuse : Option (Record Value)) : Prop :=
  ∀ x, reuse = some x → x.WellFormed codec.registry ∧ x.typeName = codec.typeName

/-- What a codec writes it decodes, in place of any record, and the readable slots come back as they are kept. -/
theorem decode_of_written (sound : codec.Sound) (formed : r.WellFormed codec.registry)
    (encoded : codec.encode r = .ok bytes) (within : r.Within codec.settings) {reuse : Option (Record Value)}
    (reuses : codec.Reuses reuse) :
    ∃ d, (codec.decode bytes reuse).1 = .ok d ∧ d.readable = r.readable ∧
      ∀ i, r.isReadable i = true → ∃ field, d.slot i = Payload.kept field (r.slot i) := by
  obtain ⟨type, payload⟩ := encode_ok.mp encoded
  have layout := sound.layout_of_typeName formed type
  have sized : codec.layout.fieldCount < wordBound := sound.sized
  obtain ⟨values, reads, _⟩ := Payload.read_reads sound.registry (Settings.maxBytes_lt sound.settings) sized
    formed layout within payload
  have run := Payload.contentsOf_of_reads reads
  have fits := Payload.contentsOf_fits run
  have decoded : ∃ d, (codec.decode bytes reuse).1 = .ok d := by
    cases reuse with
    | none => exact ⟨_, decode_of_reads sound reads⟩
    | some x =>
      obtain ⟨formed, type⟩ := reuses x rfl
      rw [decode_some_eq sound formed type, run]
      exact ⟨_, rfl⟩
  obtain ⟨d, decoded⟩ := decoded
  obtain ⟨contents, target, again, slots, rfl⟩ := decode_onto sound (fun x same => (reuses x same).1) decoded
  rw [run] at again
  cases again
  refine ⟨_, decoded, rfl, fun i isReadable => ?_⟩
  obtain ⟨value, member⟩ := fits.exists_value isReadable
  obtain ⟨field, _, rfl⟩ := contents_of_encode sound formed encoded within run member
  exact ⟨field, fits.slot_readable slots member⟩

/-! ### Writing -/

theorem encode_extends (layout : codec'.layout = codec.layout)
    (le : codec.settings.maxDepth ≤ codec'.settings.maxDepth) (encoded : codec.encode r = .ok bytes) :
    codec'.encode r = .ok bytes := by
  obtain ⟨type, payload⟩ := encode_ok.mp encoded
  obtain ⟨fields, written, rfl⟩ := Payload.encode_ok.mp payload
  have named : codec'.typeName = codec.typeName := congrArg Layout.fullName layout
  refine encode_ok.mpr ⟨type.trans named.symm, Payload.encode_ok.mpr ⟨fields, ?_, rfl⟩⟩
  rw [layout]
  exact Payload.encodeFields_extends le written

/-- The codec with at least the given depth. -/
def deepened (codec : Codec) (depth : Nat) : Codec :=
  { codec with settings := { codec.settings with maxDepth := max codec.settings.maxDepth depth } }

theorem deepened_wider (codec : Codec) (depth : Nat) : codec.Narrower (codec.deepened depth) :=
  ⟨rfl, rfl, Nat.le_refl _, Nat.le_refl _, Nat.le_max_left _ _⟩

theorem Sound.deepened (sound : codec.Sound) (depth : Nat) : (codec.deepened depth).Sound := by
  obtain ⟨collection, bytes, bound, positive⟩ := Settings.validate_iff.mp sound.settings
  refine ⟨sound.registry, Settings.validate_iff.mpr ⟨collection, bytes, bound, ?_⟩, sound.known, sound.faithful⟩
  exact Nat.lt_of_lt_of_le positive (Nat.le_max_left _ _)

/-- Records of a registry have the slots and the bits that are looked at when they are written. -/
theorem encode_writes_formed (formed : r.WellFormed registry) (type : r.typeName = codec.typeName) :
    Plain.Writes (codec.encode r) ↔ ∀ i, r.isReadable i = true → ∃ field, codec.layout.field? i = some field ∧
      (r.slot i).conforms field.schema = true ∧ (r.slot i).Complete codec.settings.maxDepth := by
  have sized : (Value.record r).Every Record.Sized := (Value.wellFormed_record.mpr formed).sized
  exact encode_writes_iff type formed.1.slots formed.1.readableLen fun i _ => Record.every_slot sized i

theorem nests_of_encode (formed : r.WellFormed registry) (encoded : codec.encode r = .ok bytes) :
    r.Nests codec.settings.maxDepth := by
  intro i isReadable
  have slots := (encode_writes_formed formed (encode_ok.mp encoded).1).mp ⟨bytes, encoded⟩
  obtain ⟨_, _, _, complete⟩ := slots i isReadable
  exact complete.2

/-- What one codec writes is written alike by every codec of the type that may go as deep. -/
theorem encode_of_nests {writer : Codec} (layout : writer.layout = codec.layout)
    (formed : r.WellFormed registry) (written : writer.encode r = .ok bytes)
    (nests : r.Nests codec.settings.maxDepth) : codec.encode r = .ok bytes := by
  have type := (encode_ok.mp written).1
  have named : writer.typeName = codec.typeName := congrArg Layout.fullName layout
  have slots := (encode_writes_formed formed type).mp ⟨bytes, written⟩
  have writes : Plain.Writes (codec.encode r) := by
    refine (encode_writes_formed formed (type.trans named)).mpr fun i isReadable => ?_
    obtain ⟨field, found, fits, filled, _⟩ := slots i isReadable
    exact ⟨field, layout ▸ found, fits, filled, nests i isReadable⟩
  obtain ⟨others, encoded⟩ := writes
  -- both are what a codec writes that may go as deep as either of them
  have kept : (codec.deepened writer.settings.maxDepth).layout = codec.layout := rfl
  have deep : (codec.deepened writer.settings.maxDepth).encode r = .ok others :=
    encode_extends kept (Nat.le_max_left _ _) encoded
  have same : (codec.deepened writer.settings.maxDepth).encode r = .ok bytes :=
    encode_extends layout.symm (Nat.le_max_right _ _) written
  obtain rfl : others = bytes := Except.ok.inj (deep.symm.trans same)
  exact encoded

/-! ### Both sides -/

/-- Beyond the depth that a codec reads, its limit is the error. -/
theorem decode_malformed (sound : codec.Sound) {writer : Codec} (layout : writer.layout = codec.layout)
    (formed : r.WellFormed codec.registry) (within : r.Within codec.settings)
    (written : writer.encode r = .ok bytes) {reuse : Option (Record Value)} (reuses : codec.Reuses reuse)
    (deep : ¬r.Nests codec.settings.maxDepth) :
    ∃ e, (codec.decode bytes reuse).1 = .error e ∧ e.kind = .malformed := by
  have wider := codec.deepened_wider writer.settings.maxDepth
  have soundWide := sound.deepened writer.settings.maxDepth
  have encoded : (codec.deepened writer.settings.maxDepth).encode r = .ok bytes :=
    encode_extends layout.symm (Nat.le_max_right _ _) written
  obtain ⟨d, decoded, readable, slots⟩ :=
    decode_of_written soundWide formed encoded (wider.settings.record within) reuses
  rcases decode_loosened wider sound soundWide bytes reuse with same | ⟨e, failed, exceeded⟩
  · refine absurd (fun i isReadable => ?_) deep
    have nests := decode_nests (same.symm.trans decoded)
    obtain ⟨field, slot⟩ := slots i isReadable
    rw [← Payload.depth_kept field, ← slot]
    refine nests i ?_
    rwa [Record.isReadable, readable]
  · exact ⟨e, failed, exceeded.kind⟩

/-- Decoding comes to an end with a record no deeper than allowed, or with an error. What one codec of a type
has written another one decodes and writes if its settings allow the depth; otherwise it refuses both. -/
theorem decode_nesting :
    (∀ (codec : Codec) (bytes : List UInt8) (reuse : Option (Record Value)),
      (∃ d, (codec.decode bytes reuse).1 = .ok d ∧ d.Nests codec.settings.maxDepth) ∨
        ∃ e, (codec.decode bytes reuse).1 = .error e) ∧
    ∀ (writer codec : Codec) (r : Record Value) (bytes : List UInt8), codec.Made →
      writer.layout = codec.layout → r.WellFormed codec.registry → r.Within codec.settings →
      writer.encode r = .ok bytes → ∀ reuse, codec.Reuses reuse →
        (r.Nests codec.settings.maxDepth →
          (∃ d, (codec.decode bytes reuse).1 = .ok d) ∧ codec.encode r = .ok bytes) ∧
        (¬r.Nests codec.settings.maxDepth →
          (∃ e, (codec.decode bytes reuse).1 = .error e ∧ e.kind = .malformed) ∧
            ∃ e, codec.encode r = .error e ∧ e.kind = .valueMismatch) := by
  refine ⟨fun codec bytes reuse => ?_, ?_⟩
  · cases run : (codec.decode bytes reuse).1 with
    | ok d => exact Or.inl ⟨d, rfl, decode_nests run⟩
    | error e => exact Or.inr ⟨e, rfl⟩
  · intro writer codec r bytes made layout formed within written reuse reuses
    refine ⟨fun nests => ?_, fun deep => ⟨?_, ?_⟩⟩
    · have encoded := encode_of_nests layout formed written nests
      obtain ⟨d, decoded, _⟩ := decode_of_written made.sound formed encoded within reuses
      exact ⟨⟨d, decoded⟩, encoded⟩
    · exact decode_malformed made.sound layout formed within written reuses deep
    · cases run : codec.encode r with
      | ok others => exact absurd (nests_of_encode formed run) deep
      | error e =>
        have type : r.typeName = codec.typeName :=
          (encode_ok.mp written).1.trans (congrArg Layout.fullName layout)
        have same := made.sound.layout_of_typeName formed type
        exact ⟨e, rfl, (encode_mismatches same formed.1.slots formed.1.readableLen e run).kind⟩

end Codec

end Wire

namespace Node

/-- So many nodes, each behind the one before it. -/
def chain : Nat → Value
  | 0 => .null
  | n + 1 => .record ⟨layout, [.int 7, chain n, .map {}], FieldBits.new 3, layout.selectAll⟩

/-- A node in front of a chain. -/
def front (n : Nat) : Record Value := ⟨layout, [.int 5, chain n, .map {}], FieldBits.new 3, layout.selectAll⟩

theorem front_wellFormed (n : Nat) : (front n).WellFormed registry := by
  have all : (FieldBits.new 3).setAll.WellFormed := (FieldBits.new_wellFormed 3).setAll.1
  have map : (Value.map {}).WellFormed registry :=
    Value.wellFormed_map.mpr (Value.mapOrEmpty_wellFormed (show Value.WellFormed registry .null from trivial))
  refine ⟨⟨rfl, rfl, FieldBits.new_wellFormed 3, rfl, all, rfl⟩, ?_⟩
  simp only [front, List.forall_mem_cons]
  refine ⟨trivial, ?_, map, List.forall_mem_nil _⟩
  induction n with
  | zero => trivial
  | succ n ih =>
    refine Value.wellFormed_record.mpr ⟨⟨rfl, rfl, FieldBits.new_wellFormed 3, rfl, all, rfl⟩, ?_⟩
    simp only [List.forall_mem_cons]
    exact ⟨trivial, ih, map, List.forall_mem_nil _⟩

theorem chain_depth (n : Nat) : (chain n).depth = n := by
  induction n with
  | zero => rfl
  | succ n ih => simp [chain, Value.depth, Value.depthAll, Value.depthEntries, ih]

theorem front_nests {n k : Nat} : (front n).Nests k ↔ n ≤ k := by
  constructor
  · intro nests
    rw [← chain_depth n]
    exact nests 1 (show layout.selectAll.get 1 = true by decide)
  · intro le i _
    rcases i with _ | _ | _ | i
    · exact Nat.zero_le k
    · exact (chain_depth n).symm ▸ le
    · exact Nat.zero_le k
    · exact Nat.zero_le k

theorem front_within (settings : Wire.Settings) (n : Nat) : (front n).Within settings := by
  have empty : (Value.map {}).Within settings :=
    Value.within_map.mpr ⟨Nat.zero_le _, List.forall_mem_nil _⟩
  have within : (chain n).Within settings := by
    induction n with
    | zero => trivial
    | succ n ih =>
      refine Value.within_record.mpr ?_
      simp only [List.forall_mem_cons]
      exact ⟨trivial, ih, empty, List.forall_mem_nil _⟩
  intro index field found _
  rcases index with _ | _ | _ | index
  · cases found
    exact ⟨trivial, fun map => (nomatch map)⟩
  · cases found
    exact ⟨within, fun map => (nomatch map)⟩
  · exact ⟨empty, fun _ => ⟨Nat.zero_le _, List.forall_mem_nil _⟩⟩
  · cases found

end Node

namespace Wire.Codec

/-- One node behind the first is as deep as the least codec goes, and two are not. -/
theorem decode_nesting_node :
    ∃ shallow deep, Node.codec.encode (Node.front 1) = .ok shallow ∧ Node.codec.encode (Node.front 2) = .ok deep ∧
      ((∃ d, (leastCodec.decode shallow none).1 = .ok d) ∧ leastCodec.encode (Node.front 1) = .ok shallow) ∧
      (∃ e, (leastCodec.decode deep none).1 = .error e ∧ e.kind = .malformed) ∧
        ∃ e, leastCodec.encode (Node.front 2) = .error e ∧ e.kind = .valueMismatch := by
  have decided (n : Nat) {bytes : List UInt8} (written : Node.codec.encode (Node.front n) = .ok bytes) :=
    decode_nesting.2 Node.codec leastCodec (Node.front n) bytes leastCodec_made rfl (Node.front_wellFormed n)
      (Node.front_within _ n) written none nofun
  have shallow : Node.codec.encode (Node.front 1) = .ok _ := rfl
  have deep : Node.codec.encode (Node.front 2) = .ok _ := rfl
  exact ⟨_, _, shallow, deep, (decided 1 shallow).1 (Node.front_nests.mpr (by decide)),
    (decided 2 deep).2 fun nests => absurd (Node.front_nests.mp nests) (by decide)⟩

end Wire.Codec

end TrackedRecord
