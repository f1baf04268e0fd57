import TrackedRecord.Proofs.Value.Parts
import TrackedRecord.Proofs.Wire.Codec
import TrackedRecord.Proofs.Wire.Plain.RoundTrip

/-!
# The plain encoding delimits itself

The bytes of a value say where they end: whatever stands behind them, decoding takes them and no more,
and gives the value back with all fields of its records readable and its maps unchanged.
-/

namespace TrackedRecord

/-- Every field is readable and none dirty. -/
structure Record.Loaded (r : Record Value) : Prop where
  readable : ∀ i < r.layout.fieldCount, r.isReadable i = true
  clean : ∀ i, r.isDirty i = false

namespace Value

theorem parts_plain (value : Value) : value.plain.parts = value.parts.map plain := by
  cases value with
  | record r => rw [plain_record, parts, parts]
  | array items => rw [plain_array, parts, parts]
  | map m =>
    rw [plain_map, parts, parts, List.map_map, List.map_map]
    rfl
  | union branch value =>
    rw [plain_union]
    rfl
  | _ => rfl

/-- Whatever stands inside a plain value is plain. -/
theorem Contains.of_plain {value part : Value} (contains : value.plain.Contains part) :
    ∃ inner : Value, inner.plain = part := by
  generalize same : value.plain = whole at contains
  induction contains generalizing value with
  | self => exact ⟨value, same⟩
  | inside part_of _ ih =>
    rw [← same, parts_plain] at part_of
    obtain ⟨inner, _, same⟩ := List.mem_map.mp part_of
    exact ih same

theorem loaded_of_plain {value : Value} {r : Record Value} (same : value.plain = .record r) : r.Loaded := by
  cases value with
  | record inner =>
    rw [plain_record] at same
    cases same
    refine ⟨fun i inside => ?_, fun i => FieldBits.get_new _ i⟩
    exact (FieldBits.new_wellFormed _).get_setAll inside
  | _ => cases same

theorem states_of_plain {value : Value} {m : StateMap Value} (same : value.plain = .map m) :
    m.states = [] := by
  cases value with
  | map inner =>
    rw [plain_map] at same
    cases same
    rfl
  | _ => cases same

end Value

namespace Wire.Plain

variable {registry : Registry} {settings : Settings}

theorem encode_self_delimiting (built : registry.Built) (small : settings.maxBytes < wordBound)
    {maxDepth : Nat} {schema : Schema} {value : Value} (formed : value.WellFormed registry)
    (within : value.Within settings) {bytes : List UInt8}
    (encoded : encode maxDepth schema value = .ok bytes) (rest : List UInt8) (pos : Nat) :
    ∃ decoded, decode registry settings maxDepth schema none ⟨bytes ++ rest, pos⟩ =
        .ok decoded ⟨rest, pos + bytes.length⟩ ∧
      decoded.same value = true ∧ decoded.Every Record.Loaded ∧
      ∀ m, decoded.Contains (.map m) → m.states = [] := by
  have reads := decode_recovers built.sound small maxDepth schema formed within encoded
  refine ⟨value.plain, reads rest pos, value.plain_same, ?_, ?_⟩
  · intro r contains
    obtain ⟨inner, same⟩ := contains.of_plain
    exact Value.loaded_of_plain same
  · intro m contains
    obtain ⟨inner, same⟩ := contains.of_plain
    exact Value.states_of_plain same

/-- The sample, whose own map has a state and one of whose fields is dirty, in front of another byte. -/
theorem encode_self_delimiting_node :
    let bytes := [5, 0, 0, 0, 1, 7, 0, 0, 0, 0, 0, 1, 1, 0x62, 9, 0, 0, 0]
    encode 2 (.record Node.type) (.record Node.sample) = .ok bytes ∧
      (Value.record Node.sample).Within {} ∧
      ∃ decoded, decode Node.registry {} 2 (.record Node.type) none ⟨bytes ++ [0xFF], 0⟩ =
          .ok decoded ⟨[0xFF], 18⟩ ∧
        decoded.same (.record Node.sample) = true ∧ decoded.Every Record.Loaded ∧
        ∀ m, decoded.Contains (.map m) → m.states = [] := by
  intro bytes
  have encoded : encode 2 (.record Node.type) (.record Node.sample) = .ok bytes := rfl
  have formed : (Value.record Node.sample).WellFormed Node.registry :=
    Value.wellFormed_record.mpr Node.sample_wellFormed
  have within : (Value.record Node.sample).Within {} := by
    have inner : (Value.map {}).Within {} := Value.within_map.mpr ⟨by decide, List.forall_mem_nil _⟩
    have named : (Value.map ⟨[("b", .int 9)], [("a", .deleted)]⟩).Within {} :=
      Value.within_map.mpr ⟨by decide, List.forall_mem_singleton.mpr ⟨by decide, trivial⟩⟩
    exact ⟨trivial, ⟨trivial, trivial, inner, trivial⟩, named, trivial⟩
  exact ⟨encoded, within,
    encode_self_delimiting Node.registry_built (by decide) formed within encoded [0xFF] 0⟩

end Wire.Plain

end TrackedRecord
