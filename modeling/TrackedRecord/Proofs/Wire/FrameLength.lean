import TrackedRecord.Proofs.Wire.FrameStream
import TrackedRecord.Proofs.Wire.Limits

/-!
# Lengths of frames

Settings that are accepted keep the length of each section of a frame below the bound of four bytes, but not
the length of the whole frame. A frame that is too long for its length field is written all the same, with what
is left of its length, and cannot be opened again (`encode_lengths`).
-/

namespace TrackedRecord.Wire.Frame

variable {settings : Settings} {frame other : Frame} {n : Nat}

theorem Allowed.short (allowed : frame.Allowed settings) (valid : settings.validate = .ok ()) :
    frame.name.length < lengthBound ∧ frame.payload.length < lengthBound := by
  have limit : settings.maxBytes < lengthBound := (Settings.validate_iff.mp valid).2.2.1
  exact ⟨Nat.lt_of_le_of_lt allowed.1 limit, Nat.lt_of_le_of_lt allowed.2 limit⟩

theorem wordAt_name (short : frame.name.length < lengthBound) (more : List UInt8) :
    wordAt (frame.body ++ more) 4 = frame.name.length := by
  rw [body_name, List.append_assoc]
  exact wordAt_append short rfl (littleEndian_length 4 _)

theorem wordAt_payload (short : frame.payload.length < lengthBound) (more : List UInt8) :
    wordAt (frame.body ++ more) (8 + frame.name.length) = frame.payload.length := by
  rw [body_payload, List.append_assoc]
  refine wordAt_append short rfl ?_
  simp only [List.length_append, littleEndian_length]

/-- What is opened of a written frame has the lengths of its sections. -/
theorem size_of_decode (name : frame.name.length < lengthBound) (payload : frame.payload.length < lengthBound)
    (opened : decode settings frame.encode = .ok (other, n)) : other.size = frame.size := by
  obtain ⟨rfl, short, -, body, -, -⟩ := decode_ok opened
  have total (frame : Frame) : frame.size = 16 + frame.name.length + frame.payload.length := rfl
  have both := total other
  have word {offset : Nat} (room : offset + 8 ≤ other.size) :
      wordAt (other.body ++ []) offset = wordAt frame.encode offset := by
    rw [List.append_nil, body, wordAt_take (by omega)]
  have names : other.name.length = frame.name.length := by
    rw [← wordAt_name (by omega) [], word (by omega), encode, wordAt_name name]
  have payloads : other.payload.length = frame.payload.length := by
    rw [← wordAt_payload (by omega) [], word (by omega), names, encode, wordAt_payload payload]
  rw [total, total, names, payloads]

/-- The lengths of the sections are written as they are. The length of the frame is cut to four bytes, and the
frame can be opened again exactly if that is its length. -/
theorem encode_lengths (valid : settings.validate = .ok ()) (allowed : frame.Allowed settings) :
    wordAt frame.encode 4 = frame.name.length ∧
      wordAt frame.encode (8 + frame.name.length) = frame.payload.length ∧
      wordAt frame.encode 0 = frame.encode.length % lengthBound ∧
      (frame.encode.length < lengthBound →
        decode settings frame.encode = .ok (frame, frame.encode.length)) ∧
      (lengthBound ≤ frame.encode.length → ∃ e, decode settings frame.encode = .error e) := by
  obtain ⟨name, payload⟩ := allowed.short valid
  rw [encode_length]
  refine ⟨wordAt_name name _, wordAt_payload payload _, wordAt_body_mod frame _, fun short => ?_, fun long => ?_⟩
  · have opened := @decode_sealed settings frame short []
    rwa [List.append_nil, excess?_eq_none_iff.mpr allowed] at opened
  · cases opened : decode settings frame.encode with
    | error e => exact ⟨e, rfl⟩
    | ok found =>
      obtain ⟨other, n⟩ := found
      have same := size_of_decode name payload opened
      obtain ⟨size, short, -⟩ := decode_ok opened
      omega

/-- A frame of zeros without a type name. -/
def zeros (length : Nat) : Frame := ⟨"", List.replicate length 0⟩

theorem zeros_payload (length : Nat) : (zeros length).payload.length = length := List.length_replicate

theorem zeros_encode (length : Nat) : (zeros length).encode.length = overhead + length := by
  rw [encode_length, size, zeros_payload]
  rfl

theorem zeros_allowed {length : Nat} (within : length ≤ settings.maxBytes) : (zeros length).Allowed settings :=
  ⟨Nat.zero_le _, by rwa [zeros_payload]⟩

/-- The longest frame that can be opened. -/
theorem encode_lengths_longest :
    let settings : Settings := { maxBytes := 0xFFFFFFFF }
    let frame := zeros 0xFFFFFFEF
    settings.validate = .ok () ∧ frame.Allowed settings ∧ wordAt frame.encode 0 = 0xFFFFFFFF ∧
      decode settings frame.encode = .ok (frame, 0xFFFFFFFF) := by
  have allowed : (zeros 0xFFFFFFEF).Allowed { maxBytes := 0xFFFFFFFF } := zeros_allowed (by decide)
  obtain ⟨-, -, word, opened, -⟩ := encode_lengths rfl allowed
  rw [zeros_encode] at word opened
  exact ⟨rfl, allowed, word, opened (by decide)⟩

/-- A frame that is longer by one than its length field can tell is written as if it were empty. -/
theorem decode_zeros {length : Nat} (full : overhead + length = lengthBound) :
    wordAt (zeros length).encode 0 = 0 ∧
      decode settings (zeros length).encode = .error (.malformed 0 (.frameLength 0)) := by
  have word : wordAt (zeros length).encode 0 = 0 := by
    rw [encode, wordAt_body_mod, ← encode_length, zeros_encode, full]
    rfl
  refine ⟨word, ?_⟩
  rw [decode_eq, word, zeros_encode, full]
  dsimp only
  rw [if_neg (by decide), if_pos (by decide)]

/-- Both sections are within a limit that is accepted, and the frame cannot be opened again. -/
theorem encode_wraps :
    let settings : Settings := { maxBytes := 0xFFFFFFFF }
    let frame := zeros 0xFFFFFFF0
    settings.validate = .ok () ∧ frame.Allowed settings ∧ frame.encode.length = 0x100000000 ∧
      wordAt frame.encode 0 = 0 ∧ decode settings frame.encode = .error (.malformed 0 (.frameLength 0)) := by
  exact ⟨rfl, zeros_allowed (by decide), zeros_encode _, decode_zeros rfl⟩

end TrackedRecord.Wire.Frame
