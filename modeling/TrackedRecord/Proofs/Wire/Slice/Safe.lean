import TrackedRecord.Proofs.Wire.Codec
import TrackedRecord.Proofs.Wire.Slice.Payload

/-!
# Reading is safe

Whatever the bytes are, no read of a slice traps: the position only grows and never passes the end, also when
calls go on after one has failed (`after_onward`), and decoding a payload over a slice gives what decoding its bytes
gives, with errors that are placed in the input (`decode_safe`).
-/

namespace TrackedRecord.Wire

/-! ### Calls one after another -/

namespace Slice

variable {size : Nat} (settings : Settings)

theorem Call.run_refines (call : Call) :
    Refines size (call.run settings) (call.decode settings) := by
  cases call with
  | exact n => exact (Checked.exact_refines n.toNat).discard
  | byte => exact Checked.byte_refines.discard
  | varint => exact Checked.varint_refines.discard
  | count => exact Checked.count_refines.discard
  | boolean => exact Checked.boolean_refines.discard
  | int32 => exact Checked.int32_refines.discard
  | int64 => exact Checked.int64_refines.discard
  | float32 => exact Checked.float32_refines.discard
  | float64 => exact Checked.float64_refines.discard
  | byteString => exact Checked.byteString_refines.discard
  | text => exact Checked.text_refines.discard
  | packedBits len => exact (Checked.packedBits_refines len.toNat_lt).discard
  | bits => exact Checked.bits_refines.discard

/-- One call leads on, whether or not it fails. -/
theorem after?_cons {s : Slice} (inside : s.Inside size) (call : Call) (rest : List Call) :
    ∃ s', s.Onward s' ∧ s.after? settings (call :: rest) = (s'.after? settings rest).map (s' :: ·) ∧
      s.cursor.after settings (call :: rest) = s'.cursor :: s'.cursor.after settings rest := by
  rcases (call.run_refines settings).ends inside with ⟨_, s', ran, decoded, onward⟩ | ⟨e, s', ran, decoded, onward, _⟩
  · exact ⟨s', onward, by rw [after?, ran], by rw [Cursor.after, decoded]⟩
  · exact ⟨s', onward, by rw [after?, ran], by rw [Cursor.after, decoded]⟩

/-- The slices after each of the calls: none of them goes back or leaves the input, and they stand where the
decoders of the same calls do. -/
theorem after_onward {s : Slice} (inside : s.Inside size) (calls : List Call) :
    ∃ slices, s.after? settings calls = some slices ∧ slices.map cursor = s.cursor.after settings calls ∧
      (∀ s' ∈ slices, s.Onward s') ∧ (s :: slices).Pairwise fun s s' => s.pos ≤ s'.pos := by
  induction calls generalizing s with
  | nil => exact ⟨[], rfl, rfl, List.forall_mem_nil _, List.pairwise_singleton _ _⟩
  | cons call rest ih =>
    obtain ⟨s', onward, after, cursors⟩ := after?_cons settings inside call rest
    obtain ⟨slices, later, same, each, sorted⟩ := ih (onward.keeps inside)
    refine ⟨s' :: slices, by rw [after, later]; rfl, by rw [List.map_cons, same, cursors], ?_, ?_⟩
    · exact List.forall_mem_cons.mpr ⟨onward, fun s'' member => onward.trans (each s'' member)⟩
    · refine List.pairwise_cons.mpr ⟨List.forall_mem_cons.mpr ⟨onward.forward, fun s'' member => ?_⟩, sorted⟩
      exact Nat.le_trans onward.forward (each s'' member).forward

end Slice

/-! ### Payloads -/

namespace Codec

open Result (Raises)

variable {codec : Codec} {bytes : List UInt8}

theorem decodeSliceInto_eq (sound : codec.Sound) {target : Record Value} (layout : target.layout = codec.layout)
    (formed : target.clearState.WellFormed codec.registry) (small : bytes.length < wordBound) :
    codec.decodeSliceInto target bytes = (codec.decodeInto target bytes).mapError Halt.error ∧
      Raises (Error.Placed bytes.length) (codec.decodeInto target bytes) := by
  have inside : Slice.Inside bytes.length { data := bytes } := ⟨small, rfl, Nat.zero_le _⟩
  have refines : Refines bytes.length (Checked.payload codec.registry codec.settings target.layout target) _ :=
    Checked.payload_refines sound.registry formed
  unfold decodeSliceInto decodeInto
  rw [← layout]
  rcases refines.ends inside with ⟨r, s', ran, decoded, _⟩ | ⟨e, s', ran, decoded, _, placed⟩
  · rw [ran, show Cursor.start bytes = Slice.cursor { data := bytes } from rfl, decoded]
    exact ⟨rfl, Raises.ok r⟩
  · rw [ran, show Cursor.start bytes = Slice.cursor { data := bytes } from rfl, decoded]
    exact ⟨rfl, Raises.error placed⟩

/-- What a codec decodes into without a record in place. -/
theorem Sound.target_formed (sound : codec.Sound) :
    codec.target.1.layout = codec.layout ∧ codec.target.1.clearState.WellFormed codec.registry := by
  obtain ⟨layout, formed⟩ := sound.makes
  have same := sound.faithful.target_clearState
  exact ⟨(congrArg Record.layout same).trans layout, same ▸ Record.clearState_wellFormed formed⟩

/-- Whatever the bytes are and whatever record of the registry is decoded into, decoding with every index and
number checked gives what decoding gives; an error is of another schema, a cut or a malformed input, at a place in
it. And whatever is read of the bytes by calls one after another, failed ones among them, no call traps, and the
position never goes back or past the end. -/
theorem decode_safe (made : codec.Made) (small : bytes.length < wordBound) {reuse : Option (Record Value)}
    (formed : ∀ r, reuse = some r → r.WellFormed codec.registry) :
    codec.decodeSlice bytes reuse = (codec.decode bytes reuse).1.mapError Halt.error ∧
      (∀ e, (codec.decode bytes reuse).1 = .error e →
        (e.kind = .schemaMismatch ∨ e.kind = .truncated ∨ e.kind = .malformed) ∧
          ∀ offset, e.offset = some offset → offset ≤ bytes.length) ∧
      ∀ settings calls, ∃ slices, Slice.after? settings { data := bytes } calls = some slices ∧
        slices.map Slice.cursor = (Cursor.start bytes).after settings calls ∧
          (∀ s ∈ slices, s.data = bytes ∧ s.pos ≤ bytes.length) ∧ slices.Pairwise fun s s' => s.pos ≤ s'.pos := by
  have sound := made.sound
  have decodes : codec.decodeSlice bytes reuse = (codec.decode bytes reuse).1.mapError Halt.error ∧
      Raises (Error.Placed bytes.length) (codec.decode bytes reuse).1 := by
    cases reuse with
    | none =>
      obtain ⟨layout, cleared⟩ := sound.target_formed
      rw [decode_none]
      exact decodeSliceInto_eq sound layout cleared small
    | some r =>
      by_cases type : r.typeName = codec.typeName
      · have layout := sound.layout_of_typeName (formed r rfl) type
        simp only [decodeSlice, decode, checkType, if_pos type]
        exact decodeSliceInto_eq sound layout (Record.clearState_wellFormed (formed r rfl)) small
      · simp only [decodeSlice, decode, checkType, if_neg type]
        exact ⟨rfl, Raises.error .schemaMismatch⟩
  refine ⟨decodes.1, fun e failed => ⟨(decodes.2 e failed).kind, (decodes.2 e failed).offset⟩, fun settings calls => ?_⟩
  have inside : Slice.Inside bytes.length { data := bytes } := ⟨small, rfl, Nat.zero_le _⟩
  obtain ⟨slices, after, cursors, each, sorted⟩ := Slice.after_onward settings inside calls
  exact ⟨slices, after, cursors, fun s member => ⟨(each s member).data, (each s member).inside⟩,
    (List.pairwise_cons.mp sorted).2⟩

/-- A payload with one byte too many, decoded into a node with another one in it, and calls on its bytes of which
the second and the last fail. -/
theorem decode_safe_node :
    (Node.bytes ++ [0]).length < wordBound ∧ Node.sample.WellFormed Node.codec.registry ∧
      Node.codec.decodeSlice (Node.bytes ++ [0]) (some Node.sample) =
        .error (.error (.malformed 26 (.trailingBytes 1))) ∧
      ∃ slices, Slice.after? {} { data := Node.bytes ++ [0] } [.varint, .exact 100, .packedBits 3, .boolean] =
        some slices ∧ slices.map Slice.pos = [1, 1, 2, 3] := by
  have small : (Node.bytes ++ [0]).length < wordBound := by decide
  have formed : ∀ r, some Node.sample = some r → r.WellFormed Node.codec.registry := by
    rintro _ ⟨⟩
    exact Node.sample_wellFormed
  obtain ⟨same, _, reads⟩ := decode_safe Node.codec_made small formed
  obtain ⟨slices, after, cursors, _⟩ := reads {} [.varint, .exact 100, .packedBits 3, .boolean]
  refine ⟨small, Node.sample_wellFormed, same.trans rfl, slices, after, ?_⟩
  have positions := congrArg (List.map Cursor.pos) cursors
  rw [List.map_map] at positions
  exact positions.trans rfl

end Codec

end TrackedRecord.Wire
