import TrackedRecord.Proofs.Wire.Codec

/-!
# Cut and extended payloads

No payload is the front of another. Where a payload is cut off, the decoder runs as before until a read
crosses the cut, and reports the end there; what follows a payload is reported where the payload ends.
-/

namespace TrackedRecord.Wire.Codec

/-- An accepted payload is rejected as too short when anything is cut from its end, and as malformed at its
end when anything is added to it. -/
theorem decode_cut_or_extended {codec : Codec} {bytes : List UInt8} {reuse : Option (Record Value)}
    {d : Record Value}
    (accepted : (codec.decode bytes reuse).1 = .ok d) :
    (∀ part, part <+: bytes → part ≠ bytes →
      ∃ e, (codec.decode part reuse).1 = .error e ∧ e.kind = .truncated) ∧
      ∀ more, more ≠ [] →
        (codec.decode (bytes ++ more) reuse).1 =
          .error (.malformed bytes.length (.trailingBytes more.length)) := by
  rcases codec.decode_target reuse with ⟨e, failed⟩ | ⟨target, same⟩
  · rw [failed] at accepted
    cases accepted
  · rw [same] at accepted
    obtain ⟨c, run⟩ := decodeInto_ok accepted
    obtain ⟨cut, extended⟩ := Decoder.whole_sequential (Payload.fill_sequential _) run
    constructor
    · intro part start different
      obtain ⟨e, _, failed, kind⟩ := cut part start different
      exact ⟨e, by rw [same, decodeInto_of_error failed], kind⟩
    · intro more present
      obtain ⟨_, failed⟩ := extended more present
      rw [same, decodeInto_of_error failed]

/-- A payload with a byte too few and with two too many. -/
theorem decode_node_cut_or_extended :
    (Node.codec.decode Node.bytes none).1 = .ok Node.sample ∧
      (∃ e, (Node.codec.decode Node.bytes.dropLast none).1 = .error e ∧ e.kind = .truncated) ∧
        (Node.codec.decode (Node.bytes ++ [0, 0]) none).1 = .error (.malformed 26 (.trailingBytes 2)) := by
  have accepted : (Node.codec.decode Node.bytes none).1 = .ok Node.sample := rfl
  obtain ⟨cut, extended⟩ := decode_cut_or_extended accepted
  exact ⟨accepted, cut _ (List.dropLast_prefix _) (by decide), extended [0, 0] (by decide)⟩

end TrackedRecord.Wire.Codec
