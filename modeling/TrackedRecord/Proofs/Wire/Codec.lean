import TrackedRecord.Proofs.Wire.Payload.Contents
import TrackedRecord.Wire.Codec

/-!
# Codecs that programs hold

A codec is made for a type of a registry, and its decoding calls leave nothing in it but a prototype,
which is the instance that the type's maker gives.
-/

namespace TrackedRecord.Wire

namespace Codec

/-- A codec changes no more than its prototype. -/
theorem target_codec (codec : Codec) : ∃ prototype, codec.target.2 = { codec with prototype } := by
  unfold target
  dsimp only
  split
  · exact ⟨_, rfl⟩
  · exact ⟨codec.prototype, rfl⟩

theorem decode_none (codec : Codec) (bytes : List UInt8) :
    codec.decode bytes none = (codec.decodeInto codec.target.1 bytes, codec.target.2) := by
  obtain ⟨prototype, same⟩ := codec.target_codec
  change (codec.target.2.decodeInto codec.target.1 bytes, codec.target.2) = _
  rw [same]
  rfl

/-! ### Records of the codec's type -/

theorem encode_of_typeName {codec : Codec} {r : Record Value} (type : r.typeName = codec.typeName) :
    codec.encode r = Payload.encode codec.settings.maxDepth codec.layout r := by
  rw [encode, checkType, if_pos type]
  rfl

theorem decode_of_typeName {codec : Codec} {r : Record Value} (type : r.typeName = codec.typeName)
    (bytes : List UInt8) : (codec.decode bytes (some r)).1 = codec.decodeInto r bytes := by
  simp only [decode, checkType, if_pos type]
  rfl

/-- What is decoded into does not depend on the bytes. -/
theorem decode_target (codec : Codec) (reuse : Option (Record Value)) :
    (∃ e, ∀ bytes, (codec.decode bytes reuse).1 = .error e) ∨
      ∃ target, ∀ bytes, (codec.decode bytes reuse).1 = codec.decodeInto target bytes := by
  cases reuse with
  | none => exact Or.inr ⟨codec.target.1, fun bytes => by rw [decode_none]⟩
  | some r =>
    by_cases same : r.typeName = codec.typeName
    · exact Or.inr ⟨r, decode_of_typeName same⟩
    · exact Or.inl ⟨_, fun bytes => by simp only [decode, checkType, if_neg same]; rfl⟩

theorem decodeInto_of_error {codec : Codec} {target : Record Value} {e : Error}
    {bytes : List UInt8} {c : Cursor}
    (run : (Payload.fill codec.registry codec.settings codec.layout target.clearState).whole
      (Cursor.start bytes) = .error e c) :
    codec.decodeInto target bytes = .error e := by
  rw [decodeInto, Payload.decode_eq_whole, run]

theorem decodeInto_ok {codec : Codec} {target r : Record Value} {bytes : List UInt8}
    (h : codec.decodeInto target bytes = .ok r) :
    ∃ c, (Payload.fill codec.registry codec.settings codec.layout target.clearState).whole
      (Cursor.start bytes) = .ok r c := by
  rw [decodeInto, Payload.decode_eq_whole] at h
  split at h
  · cases h
    exact ⟨_, ‹_›⟩
  · cases h

/-! ### Calls -/

/-- A call that decodes. -/
inductive Call where
  | payload (bytes : List UInt8) (reuse : Option (Record Value))
  | source (source : Except Files.Failure (List UInt8)) (reuse : Option (Record Value))
  | framed (bytes : List UInt8) (reuse : Option (Record Value))

/-- What a call gives, for a frame with its length. -/
def answer (codec : Codec) : Call → Except Error (Record Value × Option Nat) × Codec
  | .payload bytes reuse =>
    let (decoded, codec) := codec.decode bytes reuse
    (decoded.map fun r => (r, none), codec)
  | .source source reuse =>
    let (decoded, codec) := codec.decodeFrom source reuse
    (decoded.map fun r => (r, none), codec)
  | .framed bytes reuse =>
    let (decoded, codec) := codec.decodeFramed bytes reuse
    (decoded.map fun (r, consumed) => (r, some consumed), codec)

/-- What calls give one after another. -/
def answers (codec : Codec) : List Call → List (Except Error (Record Value × Option Nat))
  | [] => []
  | call :: rest =>
    let (first, codec) := codec.answer call
    first :: codec.answers rest

theorem decode_codec (codec : Codec) (bytes : List UInt8) (reuse : Option (Record Value)) :
    (codec.decode bytes reuse).2 = codec ∨ (codec.decode bytes reuse).2 = codec.target.2 := by
  cases reuse with
  | none => exact Or.inr (by rw [decode_none])
  | some r => exact Or.inl rfl

theorem decodeFramed_codec (codec : Codec) (bytes : List UInt8) (reuse : Option (Record Value)) :
    (codec.decodeFramed bytes reuse).2 = codec ∨ (codec.decodeFramed bytes reuse).2 = codec.target.2 := by
  unfold decodeFramed
  cases Frame.decode codec.settings bytes with
  | error e => exact Or.inl rfl
  | ok result =>
    obtain ⟨frame, consumed⟩ := result
    by_cases other : frame.type ≠ codec.typeName
    · exact Or.inl (by simp only [if_pos other])
    · simp only [if_neg other]
      exact codec.decode_codec frame.payload reuse

theorem answer_codec (codec : Codec) (call : Call) :
    (codec.answer call).2 = codec ∨ (codec.answer call).2 = codec.target.2 := by
  cases call with
  | payload bytes reuse => exact codec.decode_codec bytes reuse
  | source source reuse =>
    cases source with
    | ok bytes => exact codec.decode_codec bytes reuse
    | error failure => exact Or.inl rfl
  | framed bytes reuse => exact codec.decodeFramed_codec bytes reuse

/-! ### Codecs in use -/

inductive Made : Codec → Prop where
  | new {registry : Registry} {type : String} {settings : Settings} {codec : Codec} (built : registry.Built)
      (made : new registry type settings = .ok codec) : Made codec
  | answer {codec : Codec} (call : Call) (made : Made codec) : Made (codec.answer call).2

/-- The prototype, if there is one, is the instance that the type's maker gives. -/
def Faithful (codec : Codec) : Prop :=
  ∀ prototype, codec.prototype = some prototype → prototype = codec.compiled.fresh codec.layout

theorem Faithful.target {codec : Codec} (faithful : codec.Faithful) : codec.target.2.Faithful := by
  unfold Codec.target
  dsimp only
  split
  · intro prototype same
    obtain rfl := Option.some.inj same
    cases kept : codec.prototype with
    | none => rfl
    | some prototype => exact faithful prototype kept
  · exact faithful

theorem Faithful.answer {codec : Codec} (faithful : codec.Faithful) (call : Call) :
    (codec.answer call).2.Faithful := by
  rcases codec.answer_codec call with same | same
  · rw [same]
    exact faithful
  · rw [same]
    exact faithful.target

/-- Whether or not there is a prototype, decoding starts from a new instance without its state. -/
theorem Faithful.target_clearState {codec : Codec} (faithful : codec.Faithful) :
    codec.target.1.clearState = (codec.compiled.fresh codec.layout).clearState := by
  unfold Codec.target
  dsimp only
  split
  · cases kept : codec.prototype with
    | none => exact Record.clearState_clearState _
    | some prototype =>
      rw [faithful prototype kept]
      exact Record.clearState_clearState _
  · rfl

/-- No call changes the registry, the type or the settings. -/
theorem answer_unchanged (codec : Codec) (call : Call) :
    ∃ prototype, (codec.answer call).2 = { codec with prototype } := by
  rcases codec.answer_codec call with same | same
  · exact ⟨codec.prototype, same⟩
  · rw [same]
    exact codec.target_codec

structure Sound (codec : Codec) : Prop where
  registry : codec.registry.Sound
  settings : codec.settings.validate = .ok ()
  known : codec.registry.record? codec.typeName = some codec.compiled
  faithful : codec.Faithful

theorem Made.sound {codec : Codec} (made : codec.Made) : codec.Sound := by
  induction made with
  | @new registry type settings codec built made =>
    obtain ⟨_, valid, made⟩ := Result.bind_ok made
    cases found : registry.record? type with
    | none =>
      rw [found] at made
      cases made
    | some compiled =>
      rw [found] at made
      obtain rfl := Result.pure_ok made
      refine ⟨built.sound, valid, ?_, fun _ absent => nomatch absent⟩
      rw [typeName, layout, Registry.fullName_of_record? found]
      exact found
  | @answer codec call made ih =>
    have faithful := ih.faithful.answer call
    obtain ⟨prototype, same⟩ := codec.answer_unchanged call
    rw [same] at faithful ⊢
    exact ⟨ih.registry, ih.settings, ih.known, faithful⟩

theorem Sound.get? {codec : Codec} (sound : codec.Sound) :
    codec.registry.get? codec.typeName = some codec.layout :=
  Registry.get?_of_record? sound.known

theorem Sound.sized {codec : Codec} (sound : codec.Sound) : codec.layout.fieldCount < wordBound :=
  sound.registry.sized sound.known

theorem Sound.makes {codec : Codec} (sound : codec.Sound) :
    codec.registry.Makes codec.compiled.fresh codec.layout :=
  sound.registry.makes sound.known

theorem Sound.fresh_slots {codec : Codec} (sound : codec.Sound) :
    (codec.compiled.fresh codec.layout).clearState.slots.length = codec.layout.fieldCount := by
  obtain ⟨layout, formed⟩ := sound.makes
  rw [formed.clearState_length, layout]

/-- Instances of the codec's type have the codec's layout. -/
theorem Sound.layout_of_typeName {codec : Codec} (sound : codec.Sound) {r : Record Value}
    (formed : r.WellFormed codec.registry) (type : r.typeName = codec.typeName) :
    r.layout = codec.layout := by
  have known := formed.1.layout
  rw [type, sound.get?] at known
  exact (Option.some.inj known).symm

/-! ### Decoding as reading -/

theorem decodeInto_eq {codec : Codec} (sound : codec.Sound) {target : Record Value}
    (formed : target.WellFormed codec.registry) (layout : target.layout = codec.layout) (bytes : List UInt8) :
    codec.decodeInto target bytes =
      (Payload.contentsOf codec.registry codec.settings codec.layout bytes).map fun contents =>
      contents.onto target.clearState := by
  have slots : target.clearState.slots.length = codec.layout.fieldCount := layout ▸ formed.clearState_length
  have each : ∀ slot ∈ target.clearState.slots, slot.WellFormed codec.registry := by
    intro slot member
    obtain ⟨old, present, rfl⟩ := List.mem_map.mp member
    exact Value.clearEntryStates_wellFormed (formed.2 old present)
  rw [decodeInto, Payload.decode_eq_whole, Payload.fill_eq sound.registry slots each, Decoder.whole_map]
  unfold Payload.contentsOf
  cases run : (Payload.read codec.registry codec.settings codec.layout).whole (Cursor.start bytes) with
  | ok contents c =>
    rw [Decoder.map_of_ok _ run]
    rfl
  | error e c =>
    rw [Decoder.map_of_error _ run]
    rfl

theorem decode_some_eq {codec : Codec} (sound : codec.Sound) {x : Record Value}
    (formed : x.WellFormed codec.registry)
    (type : x.typeName = codec.typeName) (bytes : List UInt8) :
    (codec.decode bytes (some x)).1 =
      (Payload.contentsOf codec.registry codec.settings codec.layout bytes).map fun contents =>
      contents.onto x.clearState := by
  rw [← decodeInto_eq sound formed (sound.layout_of_typeName formed type)]
  exact decode_of_typeName type bytes

theorem decode_none_eq {codec : Codec} (sound : codec.Sound) (bytes : List UInt8) :
    (codec.decode bytes none).1 =
      (Payload.contentsOf codec.registry codec.settings codec.layout bytes).map fun contents =>
      contents.onto (codec.compiled.fresh codec.layout).clearState := by
  obtain ⟨layout, formed⟩ := sound.makes
  rw [← decodeInto_eq sound formed layout, decode_none]
  unfold decodeInto
  rw [Payload.decode_eq_whole, Payload.decode_eq_whole, sound.faithful.target_clearState]

end Codec

end TrackedRecord.Wire

namespace TrackedRecord.Node

def codec : Wire.Codec := { registry, compiled := { type, layout }, settings := {} }

theorem codec_made : codec.Made :=
  .new registry_built (show Wire.Codec.new registry "Node" {} = .ok codec from rfl)

/-- A node with another one behind it and with an entry state of its own. -/
def sample : Record Value where
  layout := layout
  slots :=
    [.int 5, .record ⟨layout, [.int 7, .null, .map {}], FieldBits.new 3, layout.selectAll⟩,
      .map ⟨[("b", .int 9)], [("a", .deleted)]⟩]
  dirty := FieldBits.ofBools [true, false, false]
  readable := FieldBits.ofBools [true, true, true]

/-- The payload of the sample. -/
def bytes : List UInt8 :=
  [3, 1, 3, 7, 5, 0, 0, 0, 1, 7, 0, 0, 0, 0, 0, 1, 1, 0x61, 2, 1, 1, 0x62, 9, 0, 0, 0]

theorem sample_wellFormed : sample.WellFormed registry := by
  have inner : Record.WellFormed registry
      ⟨layout, [.int 7, .null, .map {}], FieldBits.new 3, layout.selectAll⟩ := by
    refine ⟨⟨rfl, rfl, FieldBits.new_wellFormed 3, rfl, ?_, rfl⟩, ?_⟩
    · exact FieldBits.ofBools_wellFormed [true, true, true]
    · simp only [List.forall_mem_cons]
      refine ⟨trivial, trivial, Value.wellFormed_map.mpr ?_, List.forall_mem_nil _⟩
      exact Value.mapOrEmpty_wellFormed (show Value.WellFormed registry .null from trivial)
  have map : StateMap.WellFormed registry ⟨[("b", .int 9)], [("a", .deleted)]⟩ := by
    refine ⟨⟨List.pairwise_singleton _ _, List.pairwise_singleton _ _, by decide, by decide⟩, ?_⟩
    simp only [List.forall_mem_cons]
    exact ⟨trivial, List.forall_mem_nil _⟩
  refine ⟨⟨rfl, rfl, FieldBits.ofBools_wellFormed _, rfl, FieldBits.ofBools_wellFormed _, rfl⟩, ?_⟩
  simp only [sample, List.forall_mem_cons]
  exact ⟨trivial, Value.wellFormed_record.mpr inner, Value.wellFormed_map.mpr map, List.forall_mem_nil _⟩

end TrackedRecord.Node
