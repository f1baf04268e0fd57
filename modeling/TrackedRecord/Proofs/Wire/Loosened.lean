import TrackedRecord.Proofs.Wire.Cache

/-!
# Wider limits

Limits only refuse. What is read within some limits is read alike within wider ones, and so is every fault
of the bytes but that a limit is exceeded.
-/

namespace TrackedRecord.Wire

/-- That a count, a length or a nesting is beyond its limit. -/
def Cause.isLimit : Cause → Bool
  | .countLimit _ _ | .lengthLimit _ _ | .nesting _ => true
  | _ => false

structure Error.Exceeded (e : Error) : Prop where
  kind : e.kind = .malformed
  cause : e.cause.isLimit = true

/-- The other settings allow whatever these do. -/
structure Settings.Narrower (settings wider : Settings) : Prop where
  collection : settings.maxCollection ≤ wider.maxCollection
  bytes : settings.maxBytes ≤ wider.maxBytes
  depth : settings.maxDepth ≤ wider.maxDepth

/-- The second decoder does what the first one does, but may go on where the first one exceeds a limit. -/
def Loosens {α : Type} (d d' : Decoder α) : Prop := ∀ c, d' c = d c ∨ ∃ e c', d c = .error e c' ∧ e.Exceeded

namespace Loosens

variable {α β : Type} {d d' : Decoder α} {f f' : α → Decoder β}

theorem refl (d : Decoder α) : Loosens d d := fun _ => Or.inl rfl

theorem throw {e : Error} (exceeded : e.Exceeded) (d : Decoder α) : Loosens (throw e) d :=
  fun c => Or.inr ⟨e, c, rfl, exceeded⟩

theorem bind (first : Loosens d d') (rest : ∀ a, Loosens (f a) (f' a)) : Loosens (d >>= f) (d' >>= f') := by
  intro c
  rcases first c with same | ⟨e, c', failed, exceeded⟩
  · cases run : d c with
    | ok a c₁ =>
      rw [Decoder.bind_of_ok run, Decoder.bind_of_ok (same.trans run)]
      exact rest a c₁
    | error e c₁ =>
      rw [Decoder.bind_of_error run, Decoder.bind_of_error (same.trans run)]
      exact Or.inl rfl
  · exact Or.inr ⟨e, c', Decoder.bind_of_error failed, exceeded⟩

theorem after (d : Decoder α) (rest : ∀ a, Loosens (f a) (f' a)) : Loosens (d >>= f) (d >>= f') :=
  (refl d).bind rest

theorem before (first : Loosens d d') (f : α → Decoder β) : Loosens (d >>= f) (d' >>= f) :=
  first.bind fun a => refl (f a)

theorem within {segment : String} (inner : Loosens d d') :
    Loosens (Decoder.within segment d) (Decoder.within segment d') := by
  intro c
  rcases inner c with same | ⟨e, c', failed, kind, cause⟩
  · unfold Decoder.within
    rw [same]
    exact Or.inl rfl
  · exact Or.inr ⟨_, c', Decoder.within_of_error failed, kind, cause⟩

/-- What is beyond the wider limit is beyond the narrower one. -/
theorem check {n limit wider : Nat} (le : limit ≤ wider) {e : Error} (exceeded : e.Exceeded) (e' : Error)
    (inner : Loosens d d') :
    Loosens (if limit < n then MonadExcept.throw e else d) (if wider < n then MonadExcept.throw e' else d') := by
  by_cases beyond : limit < n
  · rw [if_pos beyond]
    exact throw exceeded _
  · rw [if_neg beyond, if_neg (by omega)]
    exact inner

end Loosens

variable {settings wider : Settings}

namespace Decoder

theorem count_loosens (narrower : settings.Narrower wider) : Loosens (count settings) (count wider) :=
  .after _ fun _ => .after _ fun _ => .check narrower.collection ⟨rfl, rfl⟩ _ (.refl _)

theorem byteString_loosens (narrower : settings.Narrower wider) :
    Loosens (byteString settings) (byteString wider) :=
  .after _ fun _ => .after _ fun length => .check narrower.bytes ⟨rfl, rfl⟩ _ (.refl (exact length))

theorem text_loosens (narrower : settings.Narrower wider) : Loosens (text settings) (text wider) :=
  .after _ fun _ => (byteString_loosens narrower).before _

end Decoder

namespace Plain

theorem decodePrimitive_loosens (narrower : settings.Narrower wider) (kind : Primitive) :
    Loosens (decodePrimitive settings kind) (decodePrimitive wider kind) := by
  cases kind with
  | bytes => exact (Decoder.byteString_loosens narrower).before _
  | string => exact (Decoder.text_loosens narrower).before _
  | _ => exact .refl _

theorem decodeItems_loosens {decode decode' : Option Value → Decoder Value}
    (each : ∀ reuse, Loosens (decode reuse) (decode' reuse)) (left i : Nat) (previous before : List Value) :
    Loosens (decodeItems decode left i previous before) (decodeItems decode' left i previous before) := by
  induction left generalizing i previous before with
  | zero => exact .refl _
  | succ left ih => exact (each _).within.bind fun item => ih _ _ _

theorem decodeEntries_loosens (narrower : settings.Narrower wider)
    {decode decode' : Option Value → Decoder Value} (each : ∀ reuse, Loosens (decode reuse) (decode' reuse))
    (previous : StateMap Value) (left : Nat) (m : StateMap Value) :
    Loosens (decodeEntries settings decode previous left m) (decodeEntries wider decode' previous left m) := by
  induction left generalizing m with
  | zero => exact .refl _
  | succ left ih =>
    refine .after _ fun start => (Decoder.text_loosens narrower).bind fun key => ?_
    by_cases twice : m.contains key = true
    · simp only [if_pos twice]
      exact .refl _
    · simp only [if_neg twice]
      exact (each _).within.bind fun value => ih _

theorem decodeFields_loosens {decode decode' : Schema → Option Value → Decoder Value}
    (each : ∀ schema reuse, Loosens (decode schema reuse) (decode' schema reuse)) (name : String)
    (fields : List Field) (previous : List Value) :
    Loosens (decodeFields decode name fields previous) (decodeFields decode' name fields previous) := by
  induction fields generalizing previous with
  | nil => exact .refl _
  | cons field fields ih => exact (each _ _).within.bind fun value => (ih _).before _

theorem decodeWith_loosens (narrower : settings.Narrower wider)
    {record record' : RecordRef → Option Value → Decoder Value}
    (nested : ∀ type reuse, Loosens (record type reuse) (record' type reuse)) (schema : Schema)
    (reuse : Option Value) :
    Loosens (decodeWith settings record schema reuse) (decodeWith wider record' schema reuse) := by
  induction schema using Schema.induction generalizing reuse with
  | primitive kind =>
    rw [decodeWith, decodeWith]
    exact decodePrimitive_loosens narrower kind
  | enum e =>
    rw [decodeWith, decodeWith]
    exact .refl _
  | fixed f =>
    rw [decodeWith, decodeWith]
    exact .refl _
  | record type =>
    rw [decodeWith, decodeWith]
    exact nested type reuse
  | array element ih =>
    rw [decodeWith, decodeWith]
    refine (Decoder.count_loosens narrower).bind fun count => ?_
    exact (decodeItems_loosens ih _ _ _ _).before _
  | map value ih =>
    rw [decodeWith, decodeWith]
    refine Loosens.before ((Decoder.count_loosens narrower).bind fun count => ?_) _
    exact decodeEntries_loosens narrower ih _ _ _
  | union branches ih =>
    have inBranch (outside : Error) (branch : Nat) (reuse : Option Value) :
        Loosens (decodeBranch settings record outside branches branch reuse)
          (decodeBranch wider record' outside branches branch reuse) :=
      decodeBranch_related (Loosens.refl _) (fun type member => ih type member reuse) branch
    rw [decodeWith, decodeWith]
    refine .after _ fun start => .after _ fun branch => ?_
    cases Schema.nullPosition? branches with
    | some _ => exact inBranch _ _ _
    | none => exact (inBranch _ _ _).before _

/-- Where no more records may nest, some may for the wider limit. -/
theorem decodeNested_loosens (registry : Registry) (narrower : settings.Narrower wider) (maxDepth maxDepth' : Nat)
    {left left' : Nat} (le : left ≤ left') (type : RecordRef) (reuse : Option Value) :
    Loosens (decodeNested registry settings maxDepth left type reuse)
      (decodeNested registry wider maxDepth' left' type reuse) := by
  induction left generalizing left' type reuse with
  | zero => exact fun c => Or.inr ⟨_, c, rfl, rfl, rfl⟩
  | succ left ih =>
    obtain ⟨left', rfl⟩ : ∃ more, left' = more + 1 := ⟨left' - 1, by omega⟩
    rw [decodeNested, decodeNested]
    cases registry.record? type.fullName with
    | none => exact .refl _
    | some compiled =>
      refine Loosens.before (Loosens.before ?_ _) _
      exact decodeFields_loosens (decodeWith_loosens narrower (ih (Nat.le_of_succ_le_succ le))) _ _ _

theorem decode_loosens (registry : Registry) (narrower : settings.Narrower wider) (schema : Schema)
    (reuse : Option Value) :
    Loosens (decode registry settings settings.maxDepth schema reuse)
      (decode registry wider wider.maxDepth schema reuse) :=
  decodeWith_loosens narrower (decodeNested_loosens registry narrower _ _ narrower.depth) schema reuse

end Plain

namespace Payload

theorem decodeStatesFrom_loosens (narrower : settings.Narrower wider) (left : Nat)
    (states : List (String × EntryState)) :
    Loosens (decodeStatesFrom settings left states) (decodeStatesFrom wider left states) := by
  induction left generalizing states with
  | zero => exact .refl _
  | succ left ih =>
    refine .after _ fun start => (Decoder.text_loosens narrower).bind fun key => ?_
    refine .after _ fun tagStart => .after _ fun tag => ?_
    cases EntryState.ofTag? tag with
    | none => exact .refl _
    | some state =>
      dsimp only
      by_cases twice : Keyed.contains key states = true
      · simp only [if_pos twice]
        exact .refl _
      · simp only [if_neg twice]
        exact ih _

theorem fieldStates_loosens (narrower : settings.Narrower wider) (field : Field) :
    Loosens (fieldStates settings field) (fieldStates wider field) := by
  unfold fieldStates
  split
  · exact (Decoder.count_loosens narrower).bind fun count => decodeStatesFrom_loosens narrower _ _
  · exact .refl _

theorem decodeField_loosens (registry : Registry) (narrower : settings.Narrower wider) (field : Field)
    (slots : List Value) (index : Nat) :
    Loosens (decodeField registry settings field slots index) (decodeField registry wider field slots index) := by
  cases present : slots[index]? with
  | none =>
    rw [decodeField_none present, decodeField_none present]
    exact (fieldStates_loosens narrower field).before _
  | some previous =>
    rw [decodeField_some present, decodeField_some present]
    refine (fieldStates_loosens narrower field).bind fun states => .after _ fun start => ?_
    exact (Plain.decode_loosens registry narrower _ _).before _

theorem decodeFields_loosens (registry : Registry) (narrower : settings.Narrower wider) (layout : Layout)
    (indices : List Nat) (slots : List Value) :
    Loosens (decodeFields registry settings layout indices slots)
      (decodeFields registry wider layout indices slots) := by
  induction indices generalizing slots with
  | nil => exact .refl _
  | cons index rest ih =>
    unfold decodeFields
    cases layout.fields[index]? with
    | none => exact .refl _
    | some field => exact (decodeField_loosens registry narrower field slots index).within.bind fun value => ih _

/-- Bitmaps are as long as the layout says, whatever the limits are. -/
theorem decode_loosens (registry : Registry) (narrower : settings.Narrower wider) (layout : Layout)
    (target : Record Value) :
    Loosens (decode registry settings layout target) (decode registry wider layout target) :=
  .after _ fun _ => .after _ fun readable =>
    (decodeFields_loosens registry narrower layout readable.ones _).before _

end Payload

namespace Codec

variable {codec codec' : Codec}

/-- A codec for the same type of the same registry that has wider limits. -/
structure Narrower (codec codec' : Codec) : Prop where
  registry : codec'.registry = codec.registry
  type : codec'.typeName = codec.typeName
  settings : codec.settings.Narrower codec'.settings

theorem Narrower.compiled (narrower : codec.Narrower codec') (sound : codec.Sound) (sound' : codec'.Sound) :
    codec'.compiled = codec.compiled := by
  have known := sound'.known
  rw [narrower.registry, narrower.type, sound.known] at known
  exact (Option.some.inj known).symm

theorem decodeInto_loosened (narrower : codec.Narrower codec') (compiled : codec'.compiled = codec.compiled)
    (target : Record Value) (bytes : List UInt8) :
    codec'.decodeInto target bytes = codec.decodeInto target bytes ∨
      ∃ e, codec.decodeInto target bytes = .error e ∧ e.Exceeded := by
  have layout : codec'.layout = codec.layout := congrArg CompiledRecord.layout compiled
  unfold decodeInto
  rw [narrower.registry, layout]
  rcases Payload.decode_loosens codec.registry narrower.settings codec.layout target (Cursor.start bytes) with
    same | ⟨e, c, failed, exceeded⟩
  · rw [same]
    exact Or.inl rfl
  · rw [failed]
    exact Or.inr ⟨e, rfl, exceeded⟩

/-- Whatever is decoded into, the wider codec gives the same unless the other one exceeds a limit. -/
theorem decode_loosened (narrower : codec.Narrower codec') (sound : codec.Sound) (sound' : codec'.Sound)
    (bytes : List UInt8) (reuse : Option (Record Value)) :
    (codec'.decode bytes reuse).1 = (codec.decode bytes reuse).1 ∨
      ∃ e, (codec.decode bytes reuse).1 = .error e ∧ e.Exceeded := by
  have compiled := narrower.compiled sound sound'
  cases reuse with
  | none =>
    -- with or without a prototype, both start from the same new instance
    have start : codec'.target.1.clearState = codec.target.1.clearState := by
      rw [sound'.faithful.target_clearState, sound.faithful.target_clearState]
      unfold layout
      rw [compiled]
    rw [decode_none, decode_none, decodeInto_clearState start]
    exact decodeInto_loosened narrower compiled _ bytes
  | some r =>
    simp only [decode, checkType, narrower.type]
    split
    · exact decodeInto_loosened narrower compiled r bytes
    · exact Or.inl rfl

/-- Wider limits change no result, and no error but that of an exceeded limit. -/
theorem decode_widened (made : codec.Made) (made' : codec'.Made) (narrower : codec.Narrower codec')
    (bytes : List UInt8) (reuse : Option (Record Value)) :
    (∀ d, (codec.decode bytes reuse).1 = .ok d → (codec'.decode bytes reuse).1 = .ok d) ∧
      ∀ e, (codec.decode bytes reuse).1 = .error e → ¬e.Exceeded → (codec'.decode bytes reuse).1 = .error e := by
  rcases decode_loosened narrower made.sound made'.sound bytes reuse with same | ⟨limit, failed, exceeded⟩
  · rw [same]
    exact ⟨fun _ decoded => decoded, fun _ refused _ => refused⟩
  · rw [failed]
    refine ⟨fun _ => nofun, ?_⟩
    rintro _ ⟨⟩ other
    exact absurd exceeded other

/-- One entry, one byte and one nested record at most, and no prototype. -/
def leastCodec : Codec :=
  { Node.codec with settings := { maxCollection := 1, maxBytes := 1, maxDepth := 1, cachePrototypes := false } }

theorem leastCodec_made : leastCodec.Made :=
  .new Node.registry_built (show new Node.registry "Node" leastCodec.settings = .ok leastCodec from rfl)

/-- The sample is just within the least limits, and a payload that ends in its bitmaps ends there for both. -/
theorem decode_widened_node :
    leastCodec.Narrower Node.codec ∧
      (∃ d, (leastCodec.decode Node.bytes none).1 = .ok d ∧ (Node.codec.decode Node.bytes none).1 = .ok d) ∧
      ∃ e, (leastCodec.decode [3, 1] none).1 = .error e ∧ e.kind = .truncated ∧ e.offset = some 2 ∧
        (Node.codec.decode [3, 1] none).1 = .error e := by
  have narrower : leastCodec.Narrower Node.codec := ⟨rfl, rfl, by decide, by decide, by decide⟩
  have widened := decode_widened leastCodec_made Node.codec_made narrower
  exact ⟨narrower, ⟨_, rfl, (widened Node.bytes none).1 _ rfl⟩,
    _, rfl, rfl, rfl, (widened [3, 1] none).2 _ rfl fun exceeded => nomatch exceeded.kind⟩

end Codec

end TrackedRecord.Wire
