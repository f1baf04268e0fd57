import TrackedRecord.Proofs.Wire.Frame

/-!
# Frames one after another

Bytes hold a frame at their front exactly when they start with what the frame is written as, or, where the
checksum is not compared, with that up to the checksum. A frame is then as long as it is written, so that
frames written one after another are found again by going on where the last one ended
(`decodeAll_encode`), and a frame that is cut off is told from one that is wrong (`decode_cut`).
-/

namespace TrackedRecord.Wire.Frame

variable {settings : Settings} {frame : Frame} {bytes : List UInt8} {n : Nat}

/-! ### Words and sections of any bytes -/

theorem littleEndian_wordAt {offset : Nat} (room : offset + 4 ≤ bytes.length) :
    littleEndian 4 (wordAt bytes offset) = (bytes.drop offset).take 4 := by
  have length : ((bytes.drop offset).take 4).length = 4 := by
    rw [List.length_take, List.length_drop]
    omega
  conv => lhs; arg 1; rw [← length]
  exact littleEndian_ofLittleEndian _

theorem wordAt_lt (bytes : List UInt8) (offset : Nat) : wordAt bytes offset < lengthBound := by
  have length : ((bytes.drop offset).take 4).length ≤ 4 := by
    rw [List.length_take]
    omega
  exact Nat.lt_of_lt_of_le (ofLittleEndian_lt _) (Nat.pow_le_pow_right (by decide) length)

theorem wordAt_take {length offset : Nat} (room : offset + 4 ≤ length) :
    wordAt (bytes.take length) offset = wordAt bytes offset := by
  rw [wordAt, List.drop_take, List.take_take, Nat.min_eq_left (by omega), wordAt]

/-- A section is what stands behind its length, and the next one follows. -/
theorem sectionAt_ok {body content : List UInt8} {pos next : Nat}
    (found : sectionAt settings body pos = .ok (content, next)) :
    content.length ≤ settings.maxBytes ∧
      body.drop pos = littleEndian 4 content.length ++ content ++ body.drop next := by
  unfold sectionAt at found
  split at found
  · cases found
  dsimp only at found
  split at found
  · cases found
  split at found
  · cases found
  cases found
  have length : ((body.drop (pos + 4)).take (wordAt body pos)).length = wordAt body pos := by
    rw [List.length_take, List.length_drop]
    omega
  refine ⟨by omega, ?_⟩
  have word := List.take_append_drop 4 (body.drop pos)
  have content := List.take_append_drop (wordAt body pos) (body.drop (pos + 4))
  rw [List.drop_drop] at word content
  rw [length, littleEndian_wordAt (by omega), List.append_assoc, content, word]

/-! ### Bodies -/

theorem body_take (frame : Frame) : frame.body.take 4 = littleEndian 4 frame.size := by
  rw [body_name, List.append_assoc]
  exact List.take_left' (littleEndian_length 4 _)

theorem body_drop (frame : Frame) :
    frame.body.drop 4 = littleEndian 4 frame.name.length ++ frame.name ++
      (littleEndian 4 frame.payload.length ++ frame.payload) := by
  rw [body_name, List.append_assoc, List.drop_left' (littleEndian_length 4 _), List.append_assoc]

/-- What a body says of its frame: the two sections behind its first word, and nothing else. -/
theorem ofBody_ok {body : List UInt8} (found : ofBody settings body = .ok frame) :
    body.drop 4 = frame.body.drop 4 ∧ frame.Allowed settings := by
  obtain ⟨⟨name, pos⟩, first, found⟩ := Result.bind_ok found
  dsimp only at found
  split at found
  · rename_i type text
    obtain ⟨⟨payload, last⟩, second, found⟩ := Result.bind_ok found
    dsimp only at found
    split at found
    · cases found
    · rename_i done
      cases found
      obtain ⟨shortName, first⟩ := sectionAt_ok first
      obtain ⟨shortPayload, second⟩ := sectionAt_ok second
      obtain rfl := Utf8.decode?_eq_some_iff.mp text
      refine ⟨?_, shortName, shortPayload⟩
      rw [first, second, not_not.mp done, List.drop_length, List.append_nil, body_drop, name]
  · cases found

/-- A body that starts with its length and that of a checksum is that of one frame. -/
theorem ofBody_ok_iff {body : List UInt8} (room : 4 ≤ body.length)
    (start : wordAt body 0 = body.length + 4) :
    ofBody settings body = .ok frame ↔ frame.body = body ∧ frame.Allowed settings := by
  constructor
  · intro found
    obtain ⟨sections, allowed⟩ := ofBody_ok found
    have size : frame.size = body.length + 4 := by
      have least : 16 ≤ frame.size := frame.overhead_le_size
      have lengths := congrArg List.length sections
      rw [List.length_drop, List.length_drop, body_length] at lengths
      omega
    have word : frame.body.take 4 = body.take 4 := by
      have read : littleEndian 4 (wordAt body 0) = (body.drop 0).take 4 := littleEndian_wordAt (by omega)
      rw [start, List.drop_zero, ← size] at read
      rw [body_take, read]
    refine ⟨?_, allowed⟩
    rw [← List.take_append_drop 4 frame.body, word, ← sections, List.take_append_drop]
  · rintro ⟨rfl, allowed⟩
    have short : frame.size < lengthBound := by
      have := wordAt_lt frame.body 0
      rw [start, body_length] at this
      omega
    rw [ofBody_body short, excess?_eq_none_iff.mpr allowed]

/-! ### Whole frames -/

/-- What is decoded is the frame of the bytes before the checksum. -/
theorem decode_ok (decoded : decode settings bytes = .ok (frame, n)) :
    n = frame.size ∧ n < lengthBound ∧ n ≤ bytes.length ∧ frame.body = bytes.take (n - 4) ∧
      frame.Allowed settings ∧ (settings.verifyFrames = true →
        Crc32.checksum frame.body = BitVec.ofNat 32 (wordAt bytes (n - 4))) := by
  rw [decode_eq] at decoded
  dsimp only at decoded
  split at decoded
  · cases decoded
  split at decoded
  · cases decoded
  split at decoded
  · cases decoded
  split at decoded
  · cases decoded
  rename_i least whole passed
  obtain ⟨found, inBody, same⟩ := Result.map_ok.mp decoded
  cases same
  have small := wordAt_lt bytes 0
  generalize length : wordAt bytes 0 = n at *
  unfold overhead at least
  have room : (bytes.take (n - 4)).length = n - 4 := by
    rw [List.length_take]
    omega
  have start : wordAt (bytes.take (n - 4)) 0 = (bytes.take (n - 4)).length + 4 := by
    rw [wordAt_take (by omega), length, room]
    omega
  obtain ⟨body, allowed⟩ := (ofBody_ok_iff (by omega) start).mp inBody
  have size : n = frame.size := by
    have large : 16 ≤ frame.size := frame.overhead_le_size
    have length := congrArg List.length body
    rw [room, body_length] at length
    omega
  rw [← body] at passed
  exact ⟨size, small, by omega, body, allowed, fun compared =>
    not_not.mp fun differs => passed ⟨compared, differs⟩⟩

/-- Bytes that are decoded start with the body of the frame and a checksum, which is the right one where it
is compared. -/
theorem decode_ok_iff :
    decode settings bytes = .ok (frame, n) ↔
      (∃ check, frame.body ++ check <+: bytes ∧ check.length = 4 ∧ (settings.verifyFrames = true →
        check = littleEndian 4 (Crc32.checksum frame.body).toNat)) ∧
      n = frame.size ∧ frame.size < lengthBound ∧ frame.Allowed settings := by
  constructor
  · intro decoded
    obtain ⟨rfl, short, whole, body, allowed, verified⟩ := decode_ok decoded
    have least : 16 ≤ frame.size := frame.overhead_le_size
    refine ⟨⟨(bytes.drop (frame.size - 4)).take 4, ?_, ?_, fun compared => ?_⟩, rfl, short, allowed⟩
    · rw [body, ← List.take_add, Nat.sub_add_cancel (by omega)]
      exact List.take_prefix frame.size bytes
    · rw [List.length_take, List.length_drop]
      omega
    · have stored : (BitVec.ofNat 32 (wordAt bytes (frame.size - 4))).toNat = wordAt bytes (frame.size - 4) :=
        Nat.mod_eq_of_lt (wordAt_lt bytes _)
      rw [verified compared, stored, littleEndian_wordAt (by omega)]
  · rintro ⟨⟨check, ⟨more, rfl⟩, four, verified⟩, rfl, short, allowed⟩
    rw [decode_append short four verified more, excess?_eq_none_iff.mpr allowed]

/-- A frame that ends early is cut off, whatever is in it. -/
theorem decode_cut (settings : Settings) (short : frame.size < lengthBound) (front : bytes <+: frame.encode)
    (cut : bytes ≠ frame.encode) :
    ∃ missing, decode settings bytes = .error (.truncated bytes.length missing) := by
  have fewer : bytes.length < frame.size := by
    rw [← frame.encode_length]
    exact Nat.lt_of_le_of_ne front.length_le fun same => cut (front.eq_of_length same)
  rw [decode_eq]
  dsimp only
  by_cases few : bytes.length < overhead
  · exact ⟨_, if_pos few⟩
  have word : wordAt bytes 0 = frame.size := by
    rw [List.prefix_iff_eq_take.mp front, wordAt_take (by unfold overhead at few; omega), encode]
    exact wordAt_body short _
  have least := frame.overhead_le_size
  rw [word, if_neg few, if_neg (by omega), if_pos fewer]
  exact ⟨_, rfl⟩

/-! ### Streams -/

theorem decode_ok_progress (decoded : decode settings bytes = .ok (frame, n)) (some : bytes ≠ []) :
    (bytes.drop n).length < bytes.length := by
  obtain ⟨-, rfl, -, -⟩ := decode_ok_iff.mp decoded
  have least : 16 ≤ frame.size := frame.overhead_le_size
  have := List.length_pos_iff.mpr some
  rw [List.length_drop]
  omega

/-- Frames opened one after another, each where the one before it ended, until no byte is left. -/
def decodeAll (settings : Settings) (bytes : List UInt8) : Except Error (List Frame) :=
  if bytes = [] then .ok []
  else
    match _ : decode settings bytes with
    | .error e => .error e
    | .ok (frame, n) => (decodeAll settings (bytes.drop n)).map (frame :: ·)
  termination_by bytes.length
  decreasing_by exact decode_ok_progress ‹_› ‹_›

theorem decodeAll_nil (settings : Settings) : decodeAll settings [] = .ok [] := by
  rw [decodeAll, if_pos rfl]

theorem decodeAll_of_decode (some : bytes ≠ []) (decoded : decode settings bytes = .ok (frame, n)) :
    decodeAll settings bytes = (decodeAll settings (bytes.drop n)).map (frame :: ·) := by
  rw [decodeAll, if_neg some]
  split
  · rename_i failed
    rw [decoded] at failed
    cases failed
  · rename_i again
    rw [decoded] at again
    cases again
    rfl

/-- Frames written one after another are found again. -/
theorem decodeAll_encode {frames : List Frame}
    (fit : ∀ frame ∈ frames, frame.size < lengthBound ∧ frame.Allowed settings) :
    decodeAll settings (frames.flatMap encode) = .ok frames := by
  induction frames with
  | nil => exact decodeAll_nil settings
  | cons frame frames ih =>
    obtain ⟨⟨short, allowed⟩, rest⟩ := List.forall_mem_cons.mp fit
    have first : decode settings (frame.encode ++ frames.flatMap encode) = .ok (frame, frame.size) := by
      rw [decode_sealed short, excess?_eq_none_iff.mpr allowed]
    have some : frame.encode ++ frames.flatMap encode ≠ [] := by
      intro none
      have least : 16 ≤ frame.size := frame.overhead_le_size
      have length := congrArg List.length none
      rw [List.length_append, encode_length, List.length_nil] at length
      omega
    rw [List.flatMap_cons, decodeAll_of_decode some first, ← encode_length, List.drop_left, ih rest]
    rfl

/-- Exactly the bytes that start with a frame as it is written are decoded as that frame, where the checksum
is compared; where it is not, the last four bytes of the frame may be any. So frames that follow each other
are found again in their order with nothing left over, and a frame that ends early is cut off. -/
theorem decode_exact (settings : Settings) :
    (settings.verifyFrames = true → ∀ bytes frame n, decode settings bytes = .ok (frame, n) ↔
      frame.encode <+: bytes ∧ n = frame.encode.length ∧ frame.size < lengthBound ∧
        frame.Allowed settings) ∧
    (settings.verifyFrames = false → ∀ bytes frame n, decode settings bytes = .ok (frame, n) ↔
      (∃ check, check.length = 4 ∧ frame.body ++ check <+: bytes) ∧ n = frame.encode.length ∧
        frame.size < lengthBound ∧ frame.Allowed settings) ∧
    (∀ frames, (∀ frame ∈ frames, frame.size < lengthBound ∧ frame.Allowed settings) →
      decodeAll settings (frames.flatMap encode) = .ok frames) ∧
    ∀ (frame : Frame) bytes, frame.size < lengthBound → bytes <+: frame.encode → bytes ≠ frame.encode →
      ∃ e, decode settings bytes = .error e ∧ e.kind = .truncated := by
  refine ⟨fun verify bytes frame n => ?_, fun skip bytes frame n => ?_, fun frames => decodeAll_encode,
    fun frame bytes short front cut => ?_⟩
  · rw [decode_ok_iff, encode_length]
    refine and_congr_left fun _ => ⟨?_, fun front => ⟨_, front, littleEndian_length 4 _, fun _ => rfl⟩⟩
    rintro ⟨check, front, -, verified⟩
    rwa [verified verify] at front
  · rw [decode_ok_iff, encode_length]
    refine and_congr_left fun _ => ⟨?_, ?_⟩
    · rintro ⟨check, front, four, -⟩
      exact ⟨check, four, front⟩
    · rintro ⟨check, four, front⟩
      exact ⟨check, front, four, fun verify => by rw [skip] at verify; cases verify⟩
  · obtain ⟨missing, failed⟩ := decode_cut settings short front cut
    exact ⟨_, failed, rfl⟩

/-- The frame of a payload of two bytes, also with a wrong checksum and a byte behind it. -/
theorem decode_exact_pair :
    let frame : Frame := ⟨"Pair", [1, 2]⟩
    (decode {} frame.encode = .ok (frame, 22) ∧
      decode { verifyFrames := false } (frame.body ++ [0, 0, 0, 0, 7]) = .ok (frame, 22)) ∧
    decodeAll {} (frame.encode ++ frame.encode) = .ok [frame, frame] ∧
    ∃ e, decode {} (frame.encode.take 21) = .error e ∧ e.kind = .truncated := by
  intro frame
  have short : frame.size < lengthBound := by decide
  have allowed (settings : Settings) (long : 4 ≤ settings.maxBytes) : frame.Allowed settings :=
    ⟨long, Nat.le_trans (by decide) long⟩
  have all := allowed {} (by decide)
  obtain ⟨strict, -, stream, cut⟩ := decode_exact {}
  obtain ⟨-, loose, -⟩ := decode_exact { verifyFrames := false }
  refine ⟨⟨(strict rfl _ _ _).mpr ⟨List.prefix_rfl, rfl, short, all⟩,
    (loose rfl _ _ _).mpr ⟨⟨[0, 0, 0, 0], rfl, [7], by simp⟩, rfl, short, allowed _ (by decide)⟩⟩, ?_, ?_⟩
  · have twice := stream [frame, frame] (by simpa using ⟨short, all⟩)
    simpa using twice
  · refine cut frame _ short (List.take_prefix 21 _) fun same => ?_
    have length := congrArg List.length same
    rw [List.length_take, encode_length] at length
    exact absurd length (by decide)

end TrackedRecord.Wire.Frame
