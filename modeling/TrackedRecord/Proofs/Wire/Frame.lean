import Mathlib.Logic.Basic
import TrackedRecord.Proofs.Result
import TrackedRecord.Proofs.Wire.Number
import TrackedRecord.Wire.Frame

/-!
# Frames opened again

A frame is opened at the front of any bytes that start with it, as long as its length fits four bytes and
each of its sections is within the limit on byte strings.
-/

namespace TrackedRecord.Wire.Frame

variable {settings : Settings}

/-- What four bytes hold. -/
def lengthBound : Nat := 0x100000000

/-- The first section: the type name in bytes. -/
def name (frame : Frame) : List UInt8 := Utf8.encode frame.type

def size (frame : Frame) : Nat := overhead + frame.name.length + frame.payload.length

/-- Both sections are as long as a decoded byte string may be. -/
def Allowed (settings : Settings) (frame : Frame) : Prop :=
  frame.name.length ≤ settings.maxBytes ∧ frame.payload.length ≤ settings.maxBytes

instance (settings : Settings) (frame : Frame) : Decidable (frame.Allowed settings) :=
  inferInstanceAs (Decidable (_ ∧ _))

theorem overhead_le_size (frame : Frame) : overhead ≤ frame.size := by
  unfold size
  omega

theorem body_length (frame : Frame) : frame.body.length = frame.size - 4 := by
  simp only [body, List.length_append, littleEndian_length, size, overhead, name]
  omega

@[simp] theorem encode_length (frame : Frame) : frame.encode.length = frame.size := by
  rw [encode, List.length_append, body_length, littleEndian_length, size, overhead]
  omega

/-! ### Words and sections -/

theorem wordAt_append_mod {bytes front back : List UInt8} {n offset : Nat}
    (split : bytes = front ++ littleEndian 4 n ++ back) (here : front.length = offset) :
    wordAt bytes offset = n % lengthBound := by
  have word : (bytes.drop offset).take 4 = littleEndian 4 n := by
    rw [split, List.append_assoc, ← here, List.drop_left]
    exact List.take_left' (littleEndian_length 4 n)
  rw [wordAt, word]
  exact ofLittleEndian_littleEndian_mod 4 n

theorem wordAt_append {bytes front back : List UInt8} {n offset : Nat} (small : n < lengthBound)
    (split : bytes = front ++ littleEndian 4 n ++ back) (here : front.length = offset) :
    wordAt bytes offset = n := by
  rw [wordAt_append_mod split here, Nat.mod_eq_of_lt small]

/-- A section that stands at `pos` is found there, unless it is longer than a decoded byte string. -/
theorem sectionAt_append (settings : Settings) {body front bytes back : List UInt8} {pos : Nat}
    (small : bytes.length < lengthBound)
    (split : body = front ++ littleEndian 4 bytes.length ++ (bytes ++ back)) (here : front.length = pos) :
    sectionAt settings body pos =
      if settings.maxBytes < bytes.length then
        .error (.malformed pos (.sectionLimit bytes.length settings.maxBytes))
      else .ok (bytes, pos + 4 + bytes.length) := by
  have total : body.length = pos + 4 + (bytes.length + back.length) := by
    rw [split, List.length_append, List.length_append, littleEndian_length, List.length_append, here]
  have content : (body.drop (pos + 4)).take bytes.length = bytes := by
    have length : (front ++ littleEndian 4 bytes.length).length = pos + 4 := by
      rw [List.length_append, littleEndian_length, here]
    rw [split, ← length, List.drop_left]
    exact List.take_left
  rw [sectionAt, if_neg (by omega), wordAt_append small split here]
  dsimp only
  split
  · rfl
  · rw [if_neg (by omega), content]

/-! ### Bodies -/

/-- The frame of a body, whose sections end where it does. -/
def ofBody (settings : Settings) (body : List UInt8) : Except Error Frame := do
  let (name, pos) ← sectionAt settings body 4
  let some type := Utf8.decode? name | throw (.malformed 8 .frameTypeNotUtf8)
  let (payload, pos) ← sectionAt settings body pos
  if pos ≠ body.length then throw (.malformed pos (.beforeChecksum (body.length - pos)))
  return ⟨type, payload⟩

theorem body_name (frame : Frame) :
    frame.body = littleEndian 4 frame.size ++ littleEndian 4 frame.name.length ++
      (frame.name ++ (littleEndian 4 frame.payload.length ++ frame.payload)) := by
  simp only [body, size, name, List.append_assoc]

theorem body_payload (frame : Frame) :
    frame.body = littleEndian 4 frame.size ++ littleEndian 4 frame.name.length ++ frame.name ++
      littleEndian 4 frame.payload.length ++ (frame.payload ++ []) := by
  simp only [body, size, name, List.append_assoc, List.append_nil]

theorem wordAt_body_mod (frame : Frame) (more : List UInt8) :
    wordAt (frame.body ++ more) 0 = frame.size % lengthBound := by
  obtain ⟨back, split⟩ : ∃ back, frame.body ++ more = [] ++ littleEndian 4 frame.size ++ back := by
    simp only [body_name, List.append_assoc, List.nil_append]
    exact ⟨_, rfl⟩
  exact wordAt_append_mod split rfl

theorem wordAt_body {frame : Frame} (short : frame.size < lengthBound) (more : List UInt8) :
    wordAt (frame.body ++ more) 0 = frame.size := by
  rw [wordAt_body_mod, Nat.mod_eq_of_lt short]

/-- The error of the first section that is too long. -/
def excess? (settings : Settings) (frame : Frame) : Option Error :=
  if settings.maxBytes < frame.name.length then
    some (.malformed 4 (.sectionLimit frame.name.length settings.maxBytes))
  else if settings.maxBytes < frame.payload.length then
    some (.malformed (8 + frame.name.length) (.sectionLimit frame.payload.length settings.maxBytes))
  else none

theorem excess?_eq_none_iff {frame : Frame} : frame.excess? settings = none ↔ frame.Allowed settings := by
  unfold excess? Allowed
  split
  · exact iff_of_false nofun (by omega)
  · split
    · exact iff_of_false nofun (by omega)
    · exact iff_of_true rfl (by omega)

theorem malformed_of_excess? {frame : Frame} {e : Error} (long : frame.excess? settings = some e) :
    e.kind = .malformed := by
  unfold excess? at long
  split at long
  · cases long
    rfl
  · split at long
    · cases long
      rfl
    · cases long

theorem ofBody_body {frame : Frame} (short : frame.size < lengthBound) :
    ofBody settings frame.body =
      match frame.excess? settings with
      | none => .ok frame
      | some e => .error e := by
  have size : frame.size = overhead + frame.name.length + frame.payload.length := rfl
  have front : (littleEndian 4 frame.size ++ littleEndian 4 frame.name.length ++ frame.name).length =
      8 + frame.name.length := by
    simp only [List.length_append, littleEndian_length]
  have name := sectionAt_append settings (by omega) frame.body_name (littleEndian_length 4 _)
  have payload := sectionAt_append settings (by omega) frame.body_payload front
  have done : 8 + frame.name.length + 4 + frame.payload.length = frame.body.length := by
    rw [body_length, size, overhead]
    omega
  unfold ofBody excess?
  by_cases longName : settings.maxBytes < frame.name.length
  · rw [if_pos longName] at name
    rw [if_pos longName, name]
    rfl
  rw [if_neg longName] at name
  rw [if_neg longName, Result.bind_of_ok name]
  dsimp only
  rw [Frame.name, Utf8.decode?_encode, ← Frame.name]
  dsimp only
  by_cases longPayload : settings.maxBytes < frame.payload.length
  · rw [if_pos longPayload] at payload
    rw [if_pos longPayload, payload]
    rfl
  · rw [if_neg longPayload] at payload
    rw [if_neg longPayload, Result.bind_of_ok payload]
    dsimp only
    rw [done, if_neg (not_not_intro rfl)]
    rfl

/-! ### Whole frames -/

/-- The checks of a whole frame before its body is looked at. -/
theorem decode_eq (settings : Settings) (bytes : List UInt8) :
    decode settings bytes =
      let length := wordAt bytes 0
      let body := bytes.take (length - 4)
      let stored := BitVec.ofNat 32 (wordAt bytes (length - 4))
      if bytes.length < overhead then .error (.truncated bytes.length (overhead - bytes.length))
      else if length < overhead then .error (.malformed 0 (.frameLength length))
      else if bytes.length < length then .error (.truncated bytes.length (length - bytes.length))
      else if settings.verifyFrames = true ∧ Crc32.checksum body ≠ stored then
        .error (.corruption (.checksum (Crc32.checksum body) stored))
      else (ofBody settings body).map fun frame => (frame, length) := by
  unfold decode ofBody
  dsimp only
  by_cases few : bytes.length < overhead
  · rw [if_pos few, if_pos few]
    rfl
  by_cases least : wordAt bytes 0 < overhead
  · rw [if_neg few, if_neg few, if_pos least, if_pos least]
    rfl
  by_cases cut : bytes.length < wordAt bytes 0
  · rw [if_neg few, if_neg few, if_neg least, if_neg least, if_pos cut, if_pos cut]
    rfl
  rw [if_neg few, if_neg few, if_neg least, if_neg least, if_neg cut, if_neg cut]
  have body : (bytes.take (wordAt bytes 0 - 4)).length = wordAt bytes 0 - 4 := by
    rw [List.length_take]
    omega
  rw [body]
  generalize bytes.take (wordAt bytes 0 - 4) = body
  rw [← ite_and]
  split
  · rfl
  cases sectionAt settings body 4 with
  | error e => rfl
  | ok found =>
    obtain ⟨name, pos⟩ := found
    dsimp only [bind, Except.bind]
    cases Utf8.decode? name with
    | none => rfl
    | some type =>
      dsimp only
      cases sectionAt settings body pos with
      | error e => rfl
      | ok found =>
        dsimp only
        split <;> rfl

/-- A body and four bytes are decoded, unless these are compared with the checksum and are another one. What
is behind them does not count. -/
theorem decode_append {frame : Frame} {check : List UInt8} (short : frame.size < lengthBound)
    (four : check.length = 4)
    (verified : settings.verifyFrames = true → check = littleEndian 4 (Crc32.checksum frame.body).toNat)
    (more : List UInt8) :
    decode settings (frame.body ++ check ++ more) =
      match frame.excess? settings with
      | none => .ok (frame, frame.size)
      | some e => .error e := by
  have least := frame.overhead_le_size
  have taken : (frame.body ++ check ++ more).take (frame.size - 4) = frame.body := by
    rw [List.append_assoc, ← body_length]
    exact List.take_left
  have length : wordAt (frame.body ++ check ++ more) 0 = frame.size := by
    rw [List.append_assoc]
    exact wordAt_body short (check ++ more)
  have same : ¬(settings.verifyFrames = true ∧ Crc32.checksum frame.body ≠
      BitVec.ofNat 32 (wordAt (frame.body ++ check ++ more) (frame.size - 4))) := by
    rintro ⟨compared, differs⟩
    rw [verified compared, wordAt_append (Crc32.checksum frame.body).isLt rfl frame.body_length] at differs
    exact differs (by simp)
  have whole : frame.size ≤ (frame.body ++ check ++ more).length := by
    rw [List.length_append, List.length_append, body_length, four]
    omega
  rw [decode_eq, length]
  dsimp only
  rw [taken, if_neg (by omega), if_neg (by omega), if_neg (by omega), if_neg same,
    ofBody_body short]
  cases frame.excess? settings <;> rfl

theorem decode_sealed {frame : Frame} (short : frame.size < lengthBound) (more : List UInt8) :
    decode settings (frame.encode ++ more) =
      match frame.excess? settings with
      | none => .ok (frame, frame.size)
      | some e => .error e :=
  decode_append short (littleEndian_length 4 _) (fun _ => rfl) more

end TrackedRecord.Wire.Frame
