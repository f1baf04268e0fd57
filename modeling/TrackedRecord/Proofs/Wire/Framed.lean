import TrackedRecord.Proofs.Wire.Codec
import TrackedRecord.Proofs.Wire.Frame

/-!
# Framed payloads

A framed payload is decoded as the payload by itself is, if the frame can be opened. Opening takes the type
name and the whole payload for byte strings, so the limit on those counts for the payload too, whatever
the lengths of what is in it.
-/

namespace TrackedRecord.Wire.Codec

theorem encodeFramed_of_encode {codec : Codec} {r : Record Value} {payload : List UInt8}
    (encoded : codec.encode r = .ok payload) :
    codec.encodeFramed r = .ok (Frame.encode ⟨codec.typeName, payload⟩) := by
  rw [encodeFramed, Result.bind_of_ok encoded]
  rfl

/-- A frame of the codec's type with anything behind it is decoded as its payload. -/
theorem decodeFramed_encode (codec : Codec) {payload : List UInt8} (reuse : Option (Record Value))
    (short : Frame.size ⟨codec.typeName, payload⟩ < Frame.lengthBound) (more : List UInt8) :
    (codec.decodeFramed (Frame.encode ⟨codec.typeName, payload⟩ ++ more) reuse).1 =
      match Frame.excess? codec.settings ⟨codec.typeName, payload⟩ with
      | none => (codec.decode payload reuse).1.map fun r => (r, Frame.size ⟨codec.typeName, payload⟩)
      | some e => .error e := by
  unfold decodeFramed
  rw [Frame.decode_sealed short]
  cases Frame.excess? codec.settings ⟨codec.typeName, payload⟩ with
  | none =>
    dsimp only
    rw [if_neg (not_not_intro rfl)]
  | some e => rfl

theorem decodeFramed_encodeFramed {codec : Codec} {r d : Record Value} {payload : List UInt8}
    (encoded : codec.encode r = .ok payload) (decoded : (codec.decode payload none).1 = .ok d) :
    ∃ framed, codec.encodeFramed r = .ok framed ∧ (framed.length < Frame.lengthBound →
      if (Utf8.encode codec.typeName).length ≤ codec.settings.maxBytes ∧
          payload.length ≤ codec.settings.maxBytes then
        (codec.decodeFramed framed none).1 = .ok (d, framed.length)
      else ∃ e, (codec.decodeFramed framed none).1 = .error e ∧ e.kind = .malformed) := by
  refine ⟨_, encodeFramed_of_encode encoded, fun short => ?_⟩
  rw [Frame.encode_length] at short ⊢
  have run := codec.decodeFramed_encode none short []
  rw [List.append_nil] at run
  rw [run, decoded]
  split
  · rename_i allowed
    have fits : Frame.Allowed codec.settings ⟨codec.typeName, payload⟩ := allowed
    rw [Frame.excess?_eq_none_iff.mpr fits]
    rfl
  · rename_i long
    cases excess : Frame.excess? codec.settings ⟨codec.typeName, payload⟩ with
    | none => exact absurd (Frame.excess?_eq_none_iff.mp excess) long
    | some e => exact ⟨e, rfl, Frame.malformed_of_excess? excess⟩

theorem decodeFramed_node :
    ∃ d framed, (Node.codec.decode Node.bytes none).1 = .ok d ∧
      Node.codec.encodeFramed Node.sample = .ok framed ∧ framed.length = 46 ∧
      (Node.codec.decodeFramed framed none).1 = .ok (d, framed.length) := by
  have encoded : Node.codec.encode Node.sample = .ok Node.bytes := rfl
  have decoded : (Node.codec.decode Node.bytes none).1 = .ok _ := rfl
  obtain ⟨framed, sealed, opened⟩ := decodeFramed_encodeFramed encoded decoded
  have length : framed.length = 46 := by
    rw [encodeFramed_of_encode encoded] at sealed
    cases sealed
    exact Frame.encode_length _
  have run := opened (by rw [length]; decide)
  rw [if_pos (by decide)] at run
  exact ⟨_, framed, decoded, sealed, length, run⟩

/-- Every text and the type name of the sample have at most four bytes, its payload has more. -/
def tightCodec : Codec := { Node.codec with settings := { maxBytes := 4 } }

theorem tightCodec_made : tightCodec.Made :=
  .new Node.registry_built (show new Node.registry "Node" { maxBytes := 4 } = .ok tightCodec from rfl)

/-- A record can be decoded from its payload and not from its frame. -/
theorem decodeFramed_tight :
    ∃ (codec : Codec) (r d : Record Value) (payload framed : List UInt8), codec.Made ∧
      codec.encode r = .ok payload ∧ (codec.decode payload none).1 = .ok d ∧
      codec.encodeFramed r = .ok framed ∧ framed.length < Frame.lengthBound ∧
      ∀ answer, (codec.decodeFramed framed none).1 ≠ .ok answer := by
  have encoded : tightCodec.encode Node.sample = .ok Node.bytes := rfl
  have short : Frame.size ⟨tightCodec.typeName, Node.bytes⟩ < Frame.lengthBound := by decide
  refine ⟨tightCodec, Node.sample, _, Node.bytes, _, tightCodec_made, encoded, rfl,
    encodeFramed_of_encode encoded, by rwa [Frame.encode_length], ?_⟩
  intro answer
  have run := tightCodec.decodeFramed_encode none short []
  rw [List.append_nil] at run
  rw [run]
  exact nofun

end TrackedRecord.Wire.Codec
