import TrackedRecord.Proofs.Wire.Codec
import TrackedRecord.Proofs.Wire.Mismatch
import TrackedRecord.Proofs.Wire.Payload.Closed

/-!
# Codecs of closed registries

Where all types are compiled that others mention, no call of a codec reports that one is not.
-/

namespace TrackedRecord.Wire

open Result (Raises)

theorem Decoder.whole_reports {α : Type} {size : Nat} {d : Decoder α} (inner : Reports size d) :
    Reports size d.whole := by
  intro c start
  cases run : d c with
  | error e c₁ =>
    rw [whole_of_error run]
    exact inner.error run start
  | ok a c₁ =>
    have last := inner.ok run start
    rw [whole_of_ok run]
    by_cases nothing : c₁.rest = []
    · rw [if_pos nothing]
      exact last
    · rw [if_neg nothing]
      exact Error.Proper.malformed (Nat.le.intro last) nofun

namespace Frame

theorem sectionAt_compiled (settings : Settings) (body : List UInt8) (pos : Nat) :
    Raises Error.Compiled (sectionAt settings body pos) :=
  Raises.ite Error.Compiled.raised (Raises.ite Error.Compiled.raised
    (Raises.ite Error.Compiled.raised (Raises.ok _)))

theorem decode_compiled (settings : Settings) (bytes : List UInt8) :
    Raises Error.Compiled (decode settings bytes) := by
  unfold decode
  refine Raises.ite Error.Compiled.raised ?_
  refine Raises.ite Error.Compiled.raised (Raises.ite Error.Compiled.raised ?_)
  -- the sections are read whether or not the checksum is verified
  refine Raises.ite (Raises.ite Error.Compiled.raised ?sections) ?sections
  refine (sectionAt_compiled _ _ _).bind fun found => ?_
  dsimp only
  cases Utf8.decode? found.1 with
  | none => exact Error.Compiled.raised
  | some type =>
    refine (sectionAt_compiled _ _ _).bind fun found => ?_
    exact Raises.ite Error.Compiled.raised (Raises.ok _)

end Frame

theorem Settings.validate_compiled (settings : Settings) : Raises Error.Compiled settings.validate :=
  Raises.ite Error.Compiled.raised (Raises.ite Error.Compiled.raised
    (Raises.ite Error.Compiled.raised (Raises.ite Error.Compiled.raised (Raises.ok _))))

namespace Codec

theorem new_compiled {registry : Registry} {type : String} (known : (registry.get? type).isSome)
    (settings : Settings) : Raises Error.Compiled (new registry type settings) := by
  obtain ⟨layout, known⟩ := Option.isSome_iff_exists.mp known
  obtain ⟨compiled, found, _⟩ := Registry.record?_of_get? known
  refine settings.validate_compiled.bind fun _ => ?_
  rw [found]
  exact Raises.ok _

theorem checkType_compiled (codec : Codec) (r : Record Value) : Raises Error.Compiled (codec.checkType r) :=
  Raises.ite (Raises.ok _) Error.Compiled.raised

/-- Writing looks up no type, so the record may be any. -/
theorem encode_compiled (codec : Codec) (r : Record Value) : Raises Error.Compiled (codec.encode r) :=
  (codec.checkType_compiled r).bind fun _ => (Payload.encodeFields_compiled _ _ _ _).part

theorem encodeFramed_compiled (codec : Codec) (r : Record Value) :
    Raises Error.Compiled (codec.encodeFramed r) :=
  (codec.encode_compiled r).part

variable {codec : Codec}

theorem contentsOf_proper (sound : codec.Sound) (closed : codec.registry.Closed) (bytes : List UInt8) :
    Raises (Error.Proper bytes.length)
      (Payload.contentsOf codec.registry codec.settings codec.layout bytes) := by
  have reports : Reports bytes.length (Payload.read codec.registry codec.settings codec.layout).whole :=
    Decoder.whole_reports (Payload.read_reports sound.registry closed (closed _ _ sound.get?))
  unfold Payload.contentsOf
  split
  · exact Raises.ok _
  · rename_i run
    exact Raises.error (reports.error run (Nat.zero_add _))

/-- Whatever the bytes are, and whatever record of the registry is decoded into, the error is one of the
bytes or of the record's type. -/
theorem decode_proper (sound : codec.Sound) (closed : codec.registry.Closed) (bytes : List UInt8)
    {reuse : Option (Record Value)} (formed : ∀ r, reuse = some r → r.WellFormed codec.registry) :
    Raises (Error.Proper bytes.length) (codec.decode bytes reuse).1 := by
  have contents := contentsOf_proper sound closed bytes
  cases reuse with
  | none =>
    rw [decode_none_eq sound]
    exact contents.map
  | some r =>
    by_cases same : r.typeName = codec.typeName
    · rw [decode_some_eq sound (formed r rfl) same]
      exact contents.map
    · simp only [decode, checkType, if_neg same]
      exact Raises.error .schemaMismatch

/-- The record that a call decodes into. -/
def Call.reuse : Call → Option (Record Value)
  | .payload _ reuse | .source _ reuse | .framed _ reuse => reuse

theorem decodeFramed_compiled {bytes : List UInt8} {reuse : Option (Record Value)}
    (decoded : ∀ payload, Raises Error.Compiled (codec.decode payload reuse).1) :
    Raises Error.Compiled (codec.decodeFramed bytes reuse).1 := by
  unfold decodeFramed
  cases found : Frame.decode codec.settings bytes with
  | error e => exact Raises.error (Frame.decode_compiled _ _ e found)
  | ok result =>
    obtain ⟨frame, consumed⟩ := result
    by_cases other : frame.type ≠ codec.typeName
    · simp only [if_pos other]
      exact Error.Compiled.raised
    · simp only [if_neg other]
      exact (decoded frame.payload).map

theorem answer_compiled (sound : codec.Sound) (closed : codec.registry.Closed) (call : Call)
    (formed : ∀ r, call.reuse = some r → r.WellFormed codec.registry) :
    Raises Error.Compiled (codec.answer call).1 := by
  have decoded (bytes : List UInt8) : Raises Error.Compiled (codec.decode bytes call.reuse).1 :=
    (decode_proper sound closed bytes formed).mono fun _ => Error.Proper.compiled
  cases call with
  | payload bytes reuse => exact (decoded bytes).map
  | source source reuse =>
    cases source with
    | ok bytes => exact (decoded bytes).map
    | error failure => exact Error.Compiled.raised
  | framed bytes reuse => exact (decodeFramed_compiled decoded).map

end Codec

end TrackedRecord.Wire
