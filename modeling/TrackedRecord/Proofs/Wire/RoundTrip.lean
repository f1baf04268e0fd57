import TrackedRecord.Proofs.Wire.Codec
import TrackedRecord.Proofs.Wire.Payload.RoundTrip

/-!
# Records read back

A record that was encoded within the limits is decoded with its bits, its readable fields and their entry
states; what was not readable is not in the payload.
-/

namespace TrackedRecord

theorem Node.sample_within : sample.Within codec.settings := by
  have inner : (Value.map {}).Within codec.settings := Value.within_map.mpr ⟨by decide, List.forall_mem_nil _⟩
  intro index field found _
  rcases index with _ | _ | _ | index
  · cases found
    exact ⟨trivial, fun map => (nomatch map)⟩
  · cases found
    exact ⟨⟨trivial, trivial, inner, trivial⟩, fun map => (nomatch map)⟩
  · refine ⟨Value.within_map.mpr ⟨by decide, ?_⟩, fun _ => ⟨by decide, ?_⟩⟩
    · exact List.forall_mem_singleton.mpr ⟨by decide, trivial⟩
    · exact List.forall_mem_singleton.mpr (by decide)
  · cases found

namespace Wire.Codec

theorem encode_ok {codec : Codec} {r : Record Value} {bytes : List UInt8} :
    codec.encode r = .ok bytes ↔
      r.typeName = codec.typeName ∧ Payload.encode codec.settings.maxDepth codec.layout r = .ok bytes := by
  unfold encode checkType
  split
  · exact ⟨fun h => ⟨‹_›, h⟩, And.right⟩
  · rename_i other
    exact ⟨fun h => (nomatch h), fun h => (other h.1).elim⟩

/-- What is decoded in the end is the contents of the payload in a new instance. -/
theorem decode_of_reads {codec : Codec} (sound : codec.Sound) {bytes : List UInt8}
    {contents : Payload.Contents}
    (reads : Reads (Payload.read codec.registry codec.settings codec.layout) bytes contents) :
    (codec.decode bytes none).1 = .ok (contents.onto (codec.compiled.fresh codec.layout).clearState) := by
  rw [decode_none_eq sound, Payload.contentsOf_of_reads reads]
  rfl

theorem decode_encode {codec : Codec} (made : codec.Made) {r : Record Value}
    (formed : r.WellFormed codec.registry)
    {bytes : List UInt8} (encoded : codec.encode r = .ok bytes) (within : r.Within codec.settings) :
    ∃ d, (codec.decode bytes none).1 = .ok d ∧ d.dirty = r.dirty ∧ d.readable = r.readable ∧
      (∀ i, r.readable.get i = true → (d.slot i).same (r.slot i) = true) ∧
      (∀ i field, r.layout.field? i = some field → field.kind = .map → r.readable.get i = true →
        (d.slot i).mapOrEmpty.states = (r.slot i).mapOrEmpty.states) ∧
      (codec.compiled.fresh = Record.empty → ∀ i, r.readable.get i = false → d.slot i = .null) := by
  have sound := made.sound
  obtain ⟨type, payload⟩ := encode_ok.mp encoded
  have layout := sound.layout_of_typeName formed type
  have small := Settings.maxBytes_lt sound.settings
  have sized : codec.layout.fieldCount < wordBound := sound.registry.sized sound.known
  obtain ⟨values, reads, restored⟩ := Payload.read_reads sound.registry small sized formed layout within
    payload
  have run := decode_of_reads sound reads
  have accepted := Payload.contentsOf_fits (Payload.contentsOf_of_reads reads)
  -- what stands in a readable slot
  have shown : ∀ i, r.readable.get i = true → ∃ field, codec.layout.field? i = some field ∧
      (Payload.Contents.onto ⟨r.dirty, r.readable, values⟩
        (codec.compiled.fresh codec.layout).clearState).slot i =
        Payload.kept field (r.slot i) := by
    intro i readable
    obtain ⟨value, member⟩ := accepted.exists_value readable
    obtain ⟨field, old, found, present, rfl⟩ := restored _ member
    have slot : r.slot i = old := by rw [Record.slot, List.getD_eq_getElem?_getD, present, Option.getD_some]
    exact ⟨field, found, by rw [accepted.slot_readable sound.fresh_slots member, slot]⟩
  refine ⟨_, run, rfl, rfl, ?_, ?_, ?_⟩
  · intro i readable
    obtain ⟨field, _, slot⟩ := shown i readable
    rw [slot, Payload.kept, Value.withTable_same]
    exact Value.plain_same _
  · intro i field found map readable
    obtain ⟨other, same, slot⟩ := shown i readable
    rw [layout, same] at found
    obtain rfl := Option.some.inj found
    rw [slot, Payload.kept, Payload.tableOf, if_pos map]
    cases r.slot i <;> rfl
  · intro default i unreadable
    rw [accepted.slot_unreadable unreadable, default, Record.slot_clearState, Record.slot_empty]
    rfl

/-- The sample with a deleted entry and a nested node. -/
theorem decode_encode_node :
    Node.codec.encode Node.sample = .ok Node.bytes ∧ Node.sample.Within Node.codec.settings ∧
      ∃ d, (Node.codec.decode Node.bytes none).1 = .ok d ∧ d.dirty = Node.sample.dirty ∧
        (d.slot 1).same (Node.sample.slot 1) = true ∧ (d.slot 2).mapOrEmpty.states = [("a", .deleted)] := by
  have encoded : Node.codec.encode Node.sample = .ok Node.bytes := rfl
  obtain ⟨d, decoded, dirty, _, slots, states, _⟩ :=
    decode_encode Node.codec_made Node.sample_wellFormed encoded Node.sample_within
  exact ⟨encoded, Node.sample_within, d, decoded, dirty, slots 1 (by decide), states 2 _ rfl rfl (by decide)⟩

end Wire.Codec

end TrackedRecord
