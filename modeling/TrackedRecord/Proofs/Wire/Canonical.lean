import TrackedRecord.Proofs.Wire.Payload.Canonical
import TrackedRecord.Proofs.Wire.RoundTrip

/-!
# The canonical form of accepted payloads

Bytes that are accepted need not be what the encoder writes: numbers may be spelled at length, and keys
may come in any order. What they are decoded to is written in no more bytes, and those bytes stand for the
same record.
-/

namespace TrackedRecord.Wire.Codec

theorem decode_canonical {codec : Codec} (made : codec.Made) {bytes : List UInt8} {d : Record Value}
    (accepted : (codec.decode bytes none).1 = .ok d) :
    ∃ c, codec.encode d = .ok c ∧ c.length ≤ bytes.length ∧ (codec.decode c none).1 = .ok d := by
  have sound := made.sound
  rw [decode_none_eq sound] at accepted
  cases run : Payload.contentsOf codec.registry codec.settings codec.layout bytes with
  | error e =>
    rw [run] at accepted
    cases accepted
  | ok contents =>
    rw [run] at accepted
    cases accepted
    obtain ⟨c, encoded, shorter, reads⟩ :=
      Payload.contents_canonical sound.registry (Settings.maxBytes_lt sound.settings) run sound.fresh_slots
    have type : (contents.onto (codec.compiled.fresh codec.layout).clearState).typeName = codec.typeName :=
      congrArg Layout.fullName sound.makes.1
    exact ⟨c, encode_ok.mpr ⟨type, encoded⟩, shorter, decode_of_reads sound reads⟩

/-- A length spelled in two bytes where one is enough, and two keys that come in the wrong order. -/
def looseBytes : List UInt8 := [0x83, 0, 1, 3, 4, 0, 2, 1, 0x62, 1, 0, 0, 0, 1, 0x61, 2, 0, 0, 0]

theorem decode_canonical_node :
    ∃ d c, (Node.codec.decode looseBytes none).1 = .ok d ∧
      d.slot 2 = .map ⟨[("a", .int 2), ("b", .int 1)], []⟩ ∧
      Node.codec.encode d = .ok c ∧ c.length ≤ looseBytes.length ∧ (Node.codec.decode c none).1 = .ok d := by
  obtain ⟨c, canonical⟩ := decode_canonical Node.codec_made
    (show (Node.codec.decode looseBytes none).1 = .ok _ from rfl)
  exact ⟨_, c, rfl, rfl, canonical⟩

end TrackedRecord.Wire.Codec
