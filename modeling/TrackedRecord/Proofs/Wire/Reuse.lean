import TrackedRecord.Proofs.Wire.Cache

/-!
# Records in place

Decoding into a record that is used again gives the errors, the bits and the readable fields that
decoding into a new one gives, and only the unreadable slots are left of the old record.
-/

namespace TrackedRecord.Wire.Codec

theorem new_answers (registry : Registry) (type : String) (settings : Settings) (calls : List Call) :
    (new registry type { settings with cachePrototypes := true }).map (fun codec => codec.answers calls) =
      (new registry type { settings with cachePrototypes := false }).map
        (fun codec => codec.answers calls) := by
  have valid : Settings.validate { settings with cachePrototypes := true } =
    Settings.validate { settings with cachePrototypes := false } := rfl
  unfold new
  rw [valid]
  cases Settings.validate { settings with cachePrototypes := false } with
  | error e => rfl
  | ok _ =>
    cases found : registry.record? type with
    | none => rfl
    | some compiled =>
      have cached : Faithful { registry, compiled, settings := { settings with cachePrototypes := true } } :=
        fun _ absent => nomatch absent
      exact congrArg Except.ok (cached.answers_uncached calls).symm

theorem decode_in_place_or_new {codec : Codec} (made : codec.Made) {x : Record Value}
    (formed : x.WellFormed codec.registry) (type : x.typeName = codec.typeName) (bytes : List UInt8) :
    (∀ e, (codec.decode bytes (some x)).1 = .error e ↔ (codec.decode bytes none).1 = .error e) ∧
      (∀ r d, (codec.decode bytes (some x)).1 = .ok r → (codec.decode bytes none).1 = .ok d →
        r.dirty = d.dirty ∧ r.readable = d.readable ∧
          ∀ i, r.slot i = if d.readable.get i then d.slot i else (x.slot i).clearEntryStates) ∧
      ∀ (registry : Registry) (type : String) (settings : Settings) (calls : List Call),
        (new registry type { settings with cachePrototypes := true }).map (fun codec => codec.answers calls) =
          (new registry type { settings with cachePrototypes := false }).map
            (fun codec => codec.answers calls) := by
  have sound := made.sound
  have layout := sound.layout_of_typeName formed type
  rw [decode_some_eq sound formed type, decode_none_eq sound]
  refine ⟨?_, ?_, new_answers⟩
  · intro e
    cases Payload.contentsOf codec.registry codec.settings codec.layout bytes <;> simp [Except.map]
  · intro r d inPlace new
    cases run : Payload.contentsOf codec.registry codec.settings codec.layout bytes with
    | error e =>
      rw [run] at new
      cases new
    | ok contents =>
      rw [run] at inPlace new
      cases inPlace
      cases new
      refine ⟨rfl, rfl, ?_⟩
      have fits := Payload.contentsOf_fits run
      have slots : x.clearState.slots.length = codec.layout.fieldCount := layout ▸ formed.clearState_length
      intro i
      split
      · rename_i readable
        obtain ⟨value, member⟩ := fits.exists_value readable
        rw [fits.slot_readable slots member, fits.slot_readable sound.fresh_slots member]
      · rename_i unreadable
        rw [fits.slot_unreadable (Bool.eq_false_iff.mpr unreadable), Record.slot_clearState]

/-- Decoding the number alone into a node that has all its fields. -/
theorem decode_in_place_node :
    ∃ r d, (Node.codec.decode [3, 1, 3, 1, 6, 0, 0, 0] (some Node.sample)).1 = .ok r ∧
      (Node.codec.decode [3, 1, 3, 1, 6, 0, 0, 0] none).1 = .ok d ∧ r.readable = d.readable ∧
        r.slot 0 = d.slot 0 ∧ r.slot 2 = (Node.sample.slot 2).clearEntryStates := by
  have agree := decode_in_place_or_new Node.codec_made Node.sample_wellFormed rfl [3, 1, 3, 1, 6, 0, 0, 0]
  obtain ⟨_, readable, slots⟩ := agree.2.1 _ _ rfl rfl
  exact ⟨_, _, rfl, rfl, readable, slots 0, slots 2⟩

end TrackedRecord.Wire.Codec
