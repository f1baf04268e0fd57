import TrackedRecord.Proofs.Wire.Codec

/-!
# Prototypes and their absence

A codec that keeps a prototype and one that does not answer every series of calls alike: only the limits
in the settings count when bytes are read, and a copy of the prototype is a new instance without state.
-/

namespace TrackedRecord.Wire

variable {settings : Settings} {kept : Bool}

namespace Plain

theorem decodeEntries_kept (decode : Option Value → Decoder Value) (previous : StateMap Value) (left : Nat)
    (m : StateMap Value) :
    decodeEntries { settings with cachePrototypes := kept } decode previous left m =
      decodeEntries settings decode previous left m := by
  induction left generalizing m with
  | zero => rfl
  | succ left ih =>
    simp only [decodeEntries, ih]
    rfl

theorem decodeWith_kept (record : RecordRef → Option Value → Decoder Value) (schema : Schema) :
    decodeWith { settings with cachePrototypes := kept } record schema =
      decodeWith settings record schema := by
  induction schema using Schema.induction with
  | primitive kind =>
    funext reuse
    rw [decodeWith, decodeWith]
    cases kind <;> rfl
  | enum e =>
    funext reuse
    rw [decodeWith, decodeWith]
  | fixed f =>
    funext reuse
    rw [decodeWith, decodeWith]
  | record type =>
    funext reuse
    rw [decodeWith, decodeWith]
  | array element ih =>
    funext reuse
    rw [decodeWith, decodeWith, ih]
    rfl
  | map value ih =>
    funext reuse
    rw [decodeWith, decodeWith, ih]
    simp only [decodeEntriesOf, decodeEntries_kept]
    rfl
  | union branches ih =>
    have inBranch (outside : Error) (branch : Nat) (reuse : Option Value) :
        decodeBranch { settings with cachePrototypes := kept } record outside branches branch reuse =
          decodeBranch settings record outside branches branch reuse :=
      decodeBranch_related rfl (fun type member => congrFun (ih type member) reuse) branch
    funext reuse
    rw [decodeWith, decodeWith]
    simp only [inBranch]

theorem decodeNested_kept (registry : Registry) (maxDepth left : Nat) :
    decodeNested registry { settings with cachePrototypes := kept } maxDepth left =
      decodeNested registry settings maxDepth left := by
  induction left with
  | zero =>
    funext type reuse
    rw [decodeNested, decodeNested]
  | succ left ih =>
    have plain : decodeWith { settings with cachePrototypes := kept }
          (decodeNested registry settings maxDepth left) =
      decodeWith settings (decodeNested registry settings maxDepth left) := funext (decodeWith_kept _)
    funext type reuse
    rw [decodeNested, decodeNested, ih]
    simp only [plain]

theorem decode_kept (registry : Registry) (maxDepth : Nat) (schema : Schema) :
    decode registry { settings with cachePrototypes := kept } maxDepth schema =
      decode registry settings maxDepth schema := by
  rw [decode, decodeNested_kept, decodeWith_kept]
  rfl

end Plain

namespace Payload

theorem decodeStatesFrom_kept (left : Nat) (states : List (String × EntryState)) :
    decodeStatesFrom { settings with cachePrototypes := kept } left states =
      decodeStatesFrom settings left states := by
  induction left generalizing states with
  | zero => rfl
  | succ left ih =>
    simp only [decodeStatesFrom, ih]
    rfl

theorem decodeFields_kept (registry : Registry) (layout : Layout) (indices : List Nat) (slots : List Value) :
    decodeFields registry { settings with cachePrototypes := kept } layout indices slots =
      decodeFields registry settings layout indices slots := by
  induction indices generalizing slots with
  | nil => rfl
  | cons index rest ih =>
    simp only [decodeFields, decodeField, decodeStates, decodeStatesFrom_kept, Plain.decode_kept, ih]
    rfl

theorem decode_kept (registry : Registry) (layout : Layout) (target : Record Value) :
    decode registry { settings with cachePrototypes := kept } layout target =
      decode registry settings layout target := by
  unfold decode
  simp only [decodeFields_kept]

end Payload

namespace Codec

/-- The codec that keeps no prototype. -/
def uncached (codec : Codec) : Codec :=
  { codec with settings := { codec.settings with cachePrototypes := false }, prototype := none }

theorem uncached_decodeInto (codec : Codec) (target : Record Value) (bytes : List UInt8) :
    codec.uncached.decodeInto target bytes = codec.decodeInto target bytes := by
  unfold decodeInto uncached
  simp only [Payload.decode_kept]
  rfl

theorem uncached_target (codec : Codec) :
    codec.uncached.target = (codec.compiled.fresh codec.layout, codec.uncached) := rfl

/-- A call leaves nothing in a codec that keeps no prototype. -/
theorem uncached_answer_codec (codec : Codec) (call : Call) :
    (codec.uncached.answer call).2 = codec.uncached := by
  rcases codec.uncached.answer_codec call with same | same
  · exact same
  · rw [same, uncached_target]

theorem decodeInto_clearState {codec : Codec} {target other : Record Value}
    (same : target.clearState = other.clearState)
    (bytes : List UInt8) : codec.decodeInto target bytes = codec.decodeInto other bytes := by
  unfold decodeInto
  rw [Payload.decode_eq_whole, Payload.decode_eq_whole, same]

theorem Faithful.decode_uncached {codec : Codec} (faithful : codec.Faithful) (bytes : List UInt8)
    (reuse : Option (Record Value)) :
    (codec.uncached.decode bytes reuse).1 = (codec.decode bytes reuse).1 := by
  cases reuse with
  | none =>
    rw [decode_none, decode_none, uncached_target]
    dsimp only
    rw [uncached_decodeInto, decodeInto_clearState faithful.target_clearState]
  | some r =>
    unfold decode
    simp only [uncached_decodeInto]
    rfl

theorem Faithful.decodeFramed_uncached {codec : Codec} (faithful : codec.Faithful) (bytes : List UInt8)
    (reuse : Option (Record Value)) :
    (codec.uncached.decodeFramed bytes reuse).1 = (codec.decodeFramed bytes reuse).1 := by
  have frames : Frame.decode codec.uncached.settings bytes = Frame.decode codec.settings bytes := rfl
  have name : codec.uncached.typeName = codec.typeName := rfl
  unfold decodeFramed
  rw [frames, name]
  cases Frame.decode codec.settings bytes with
  | error e => rfl
  | ok result =>
    obtain ⟨frame, consumed⟩ := result
    by_cases other : frame.type ≠ codec.typeName
    · simp only [if_pos other]
    · simp only [if_neg other, faithful.decode_uncached]

theorem Faithful.answer_uncached {codec : Codec} (faithful : codec.Faithful) (call : Call) :
    (codec.uncached.answer call).1 = (codec.answer call).1 := by
  cases call with
  | payload bytes reuse => simp only [Codec.answer, faithful.decode_uncached]
  | source source reuse =>
    cases source with
    | ok bytes => simp only [Codec.answer, decodeFrom, faithful.decode_uncached]
    | error failure => rfl
  | framed bytes reuse => simp only [Codec.answer, faithful.decodeFramed_uncached]

theorem Faithful.answers_uncached {codec : Codec} (faithful : codec.Faithful) (calls : List Call) :
    codec.uncached.answers calls = codec.answers calls := by
  induction calls generalizing codec with
  | nil => rfl
  | cons call rest ih =>
    obtain ⟨prototype, same⟩ := codec.answer_unchanged call
    have later := ih (faithful.answer call)
    rw [same] at later
    unfold answers
    simp only [faithful.answer_uncached, uncached_answer_codec, same, ← later]
    rfl

end Codec

end TrackedRecord.Wire
