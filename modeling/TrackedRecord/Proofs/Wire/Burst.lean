import TrackedRecord.Proofs.Wire.Crc32
import TrackedRecord.Proofs.Wire.FrameStream

/-!
# Bursts

A frame in which some bits of four bytes in a row have changed is refused for its checksum, wherever the bytes
stand behind the length of the frame: in a section, in its length, in the checksum or across their borders.
-/

namespace TrackedRecord.Wire

/-- Some bits have changed, all of them in the four bytes from `start` on. -/
structure Burst (start : Nat) (before after : List UInt8) : Prop where
  length : after.length = before.length
  changed : after ≠ before
  apart : ∀ i, i < start ∨ start + 4 ≤ i → after[i]? = before[i]?

namespace Burst

variable {start : Nat} {before after : List UInt8}

theorem take_eq (burst : Burst start before after) : after.take start = before.take start := by
  apply List.ext_getElem?
  intro i
  rw [List.getElem?_take, List.getElem?_take]
  split
  · exact burst.apart i (Or.inl ‹_›)
  · rfl

theorem drop_eq (burst : Burst start before after) : after.drop (start + 4) = before.drop (start + 4) := by
  apply List.ext_getElem?
  intro i
  rw [List.getElem?_drop, List.getElem?_drop]
  exact burst.apart _ (Or.inr (Nat.le_add_right _ i))

/-- Only bytes between the same front and the same back differ. -/
theorem split (burst : Burst start before after) :
    ∃ front old new back, before = front ++ (old ++ back) ∧ after = front ++ (new ++ back) ∧
      old.length ≤ 4 ∧ new.length = old.length ∧ new ≠ old := by
  have parts (bytes : List UInt8) :
      bytes = bytes.take start ++ ((bytes.drop start).take 4 ++ bytes.drop (start + 4)) := by
    rw [← List.drop_drop, List.take_append_drop, List.take_append_drop]
  have same : after = before.take start ++ ((after.drop start).take 4 ++ before.drop (start + 4)) := by
    rw [← burst.take_eq, ← burst.drop_eq, ← parts]
  refine ⟨_, _, _, _, parts before, same, List.length_take_le 4 _, ?_, fun equal => burst.changed ?_⟩
  · rw [List.length_take, List.length_take, List.length_drop, List.length_drop, burst.length]
  · rw [same, equal, ← parts]

/-- A burst changes the remainder behind the bytes. -/
theorem remainder_ne (burst : Burst start before after) (c : BitVec 32) :
    after.foldl Crc32.step c ≠ before.foldl Crc32.step c := by
  obtain ⟨front, old, new, back, rfl, rfl, few, length, differs⟩ := burst.split
  simp only [List.foldl_append]
  exact fun same => Crc32.foldl_step_ne few length differs _ (Crc32.foldl_step_injective back same)

end Burst

namespace Frame

variable {settings : Settings} {frame : Frame} {bytes : List UInt8} {start : Nat}

/-- Bytes end with the checksum of those before exactly if they leave the residue. -/
theorem checksum_take_iff {size : Nat} (length : bytes.length = size + 4) :
    Crc32.checksum (bytes.take size) = BitVec.ofNat 32 (wordAt bytes size) ↔
      bytes.foldl Crc32.step (BitVec.allOnes 32) = Crc32.residue := by
  have rest : (bytes.drop size).length = 4 := by
    rw [List.length_drop]
    omega
  rw [wordAt, List.take_of_length_le (Nat.le_of_eq rest), Crc32.checksum_eq_iff rest, List.take_append_drop]

theorem encode_residue (frame : Frame) :
    frame.encode.foldl Crc32.step (BitVec.allOnes 32) = Crc32.residue := by
  rw [encode, ← Crc32.checksum_eq_iff (littleEndian_length 4 _),
    ofLittleEndian_littleEndian (Crc32.checksum frame.body).isLt, BitVec.ofNat_toNat, BitVec.setWidth_eq]

theorem malformed_of_decode_encode {e : Error} (short : frame.size < lengthBound)
    (failed : decode settings frame.encode = .error e) : e.kind = .malformed := by
  have opened := @decode_sealed settings frame short []
  rw [List.append_nil, failed] at opened
  cases excess : frame.excess? settings with
  | none =>
    rw [excess] at opened
    cases opened
  | some long =>
    rw [excess] at opened
    cases opened
    exact malformed_of_excess? excess

/-- Behind the first four bytes a burst leaves the length of the frame alone. -/
theorem wordAt_burst {before : List UInt8} (behind : 4 ≤ start) (burst : Burst start before bytes) :
    wordAt bytes 0 = wordAt before 0 := by
  rw [wordAt, wordAt, List.drop_zero, List.drop_zero, ← Nat.min_eq_left behind, ← List.take_take,
    burst.take_eq, List.take_take]

/-- A frame as it is written is never refused for its checksum, and one with a burst behind its length always
is. -/
theorem decode_burst (verify : settings.verifyFrames = true) (short : frame.encode.length < lengthBound) :
    (∀ e, decode settings frame.encode = .error e → e.kind ≠ .corruption) ∧
    ∀ bytes start, 4 ≤ start → Burst start frame.encode bytes →
      ∃ computed stored, computed ≠ stored ∧
        decode settings bytes = .error (.corruption (.checksum computed stored)) := by
  rw [encode_length] at short
  refine ⟨fun e failed corrupt => ?_, fun bytes start behind burst => ?_⟩
  · rw [malformed_of_decode_encode short failed] at corrupt
    cases corrupt
  · have least : 16 ≤ frame.size := frame.overhead_le_size
    have length : bytes.length = frame.size := by rw [burst.length, encode_length]
    have word : wordAt bytes 0 = frame.size := by rw [wordAt_burst behind burst, encode, wordAt_body short]
    have failed : Crc32.checksum (bytes.take (frame.size - 4)) ≠
        BitVec.ofNat 32 (wordAt bytes (frame.size - 4)) := by
      rw [Ne, checksum_take_iff (by omega), ← encode_residue frame]
      exact burst.remainder_ne _
    refine ⟨_, _, failed, ?_⟩
    rw [decode_eq, word]
    dsimp only
    rw [if_neg (by unfold overhead; omega), if_neg (by unfold overhead; omega), if_neg (by omega),
      if_pos ⟨verify, failed⟩]

/-- The last byte of the payload and the first of the checksum are replaced. -/
theorem decode_burst_pair :
    let frame : Frame := ⟨"Pair", [1, 2]⟩
    let bytes := (frame.encode.set 17 7).set 18 7
    frame.encode.length < lengthBound ∧ Burst 16 frame.encode bytes ∧
      ∃ computed stored, computed ≠ stored ∧
        decode {} bytes = .error (.corruption (.checksum computed stored)) := by
  intro frame bytes
  have short : frame.encode.length < lengthBound := by
    rw [encode_length]
    decide
  have burst : Burst 16 frame.encode bytes := by
    refine ⟨by simp [bytes], fun same => ?_, fun i outside => ?_⟩
    · have byte := congrArg (·[17]?) same
      revert byte
      decide +kernel
    · rw [List.getElem?_set_ne (by omega), List.getElem?_set_ne (by omega)]
  exact ⟨short, burst, (decode_burst rfl short).2 bytes 16 (by decide) burst⟩

end Frame

end TrackedRecord.Wire
