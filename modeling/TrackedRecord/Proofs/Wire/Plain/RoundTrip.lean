import TrackedRecord.Proofs.Wire.Limits
import TrackedRecord.Proofs.Wire.Plain.Reuse
import TrackedRecord.Proofs.Wire.Plain.Writer
import TrackedRecord.Proofs.Wire.Scalar

/-!
# Plain values read back

What is written for a value within the limits is read as the value without its states, and no byte behind
it is touched.
-/

namespace TrackedRecord.Wire.Plain

variable {registry : Registry} {settings : Settings}

def Recovers (registry : Registry) (settings : Settings) (encode : Value → Except Error (List UInt8))
    (decode : Option Value → Decoder Value) : Prop :=
  ∀ {value bytes}, value.WellFormed registry → value.Within settings → encode value = .ok bytes →
    Reads (decode none) bytes value.plain

/-! ### Scalars -/

theorem decodePrimitive_reads (small : settings.maxBytes < wordBound) {kind : Primitive} {value : Value}
    {bytes : List UInt8} (within : value.Within settings) (encoded : encodePrimitive kind value = .ok bytes) :
    Reads (decodePrimitive settings kind) bytes value.plain := by
  unfold encodePrimitive at encoded
  split at encoded
  · cases encoded
    exact Reads.pure _
  · cases encoded
    exact (Decoder.boolean_reads _).map
  · cases encoded
    exact (Decoder.int32_reads _).map
  · cases encoded
    exact (Decoder.int64_reads _).map
  · cases encoded
    exact (Decoder.float32_reads _).map
  · cases encoded
    exact (Decoder.float64_reads _).map
  · cases encoded
    exact (Decoder.byteString_reads (Nat.lt_of_le_of_lt within small) within).map
  · cases encoded
    exact (Decoder.text_reads (Nat.lt_of_le_of_lt within small) within).map
  · cases encoded

theorem decodeEnum_reads {e : EnumType} {value : Value} {bytes : List UInt8}
    (formed : value.WellFormed registry)
    (encoded : encodeEnum e value = .ok bytes) : Reads (decodeEnum e) bytes value.plain := by
  unfold encodeEnum at encoded
  split at encoded
  · split at encoded
    · rename_i ordinal inside
      cases encoded
      unfold decodeEnum
      refine Reads.position fun start => (Decoder.varint_reads formed).bind_nil ?_
      rw [if_pos inside]
      exact Reads.pure _
    · cases encoded
  · cases encoded

theorem decodeFixed_reads {f : FixedType} {value : Value} {bytes : List UInt8}
    (encoded : encodeFixed f value = .ok bytes) : Reads (decodeFixed f) bytes value.plain := by
  unfold encodeFixed at encoded
  split at encoded
  · split at encoded
    · rename_i length
      cases encoded
      exact (Decoder.exact_reads length).map
    · cases encoded
  · cases encoded

/-! ### Sequences -/

theorem decodeItems_reads {encode : Value → Except Error (List UInt8)} {decode : Option Value → Decoder Value}
    (each : Recovers registry settings encode decode) {items : List Value}
    (formed : ∀ item ∈ items, item.WellFormed registry) (within : ∀ item ∈ items, item.Within settings)
    {i : Nat}
    {bytes : List UInt8} (encoded : encodeItems encode i items = .ok bytes) (before : List Value) :
    Reads (decodeItems decode items.length i [] before) bytes (before.reverse ++ items.map Value.plain) := by
  induction items generalizing i bytes before with
  | nil =>
    cases encoded
    rw [List.map_nil, List.append_nil]
    exact Reads.pure _
  | cons item rest ih =>
    rw [List.forall_mem_cons] at formed within
    obtain ⟨first, others, head, tail, rfl⟩ := encodeItems_cons.mp encoded
    have later := ih formed.2 within.2 tail (item.plain :: before)
    rw [List.reverse_cons, List.append_assoc] at later
    exact (each formed.1 within.1 head).within.bind later

/-- Keys come in order, so each entry goes behind those that were read before it. -/
theorem decodeEntries_reads (small : settings.maxBytes < wordBound)
    {encode : Value → Except Error (List UInt8)}
    {decode : Option Value → Decoder Value} (each : Recovers registry settings encode decode)
    {entries before : List (String × Value)} (sorted : Keyed.Sorted (before ++ entries))
    (formed : ∀ entry ∈ entries, entry.2.WellFormed registry)
    (within : ∀ entry ∈ entries, settings.AllowsText entry.1 ∧ entry.2.Within settings) {bytes : List UInt8}
    (encoded : encodeEntries encode entries = .ok bytes) :
    Reads (decodeEntries settings decode StateMap.empty entries.length ⟨before, []⟩) bytes
      ⟨before ++ entries.map fun entry => (entry.1, entry.2.plain), []⟩ := by
  induction entries generalizing before bytes with
  | nil =>
    cases encoded
    rw [List.map_nil, List.append_nil]
    exact Reads.pure _
  | cons entry rest ih =>
    obtain ⟨key, value⟩ := entry
    rw [List.forall_mem_cons] at formed within
    obtain ⟨first, others, head, tail, rfl⟩ := encodeEntries_cons.mp encoded
    have absent : StateMap.contains ⟨before, []⟩ key = false := Keyed.contains_of_above sorted.above
    have sortedLater : Keyed.Sorted ((before ++ [(key, value.plain)]) ++ rest) := by
      rw [Keyed.sorted_iff_keys] at sorted ⊢
      simpa [Keyed.keys] using sorted
    have later := ih sortedLater formed.2 within.2 tail
    rw [List.append_assoc, List.singleton_append] at later
    rw [List.append_assoc]
    refine Reads.position fun start => (Decoder.text_reads ?_ within.1.1).bind ?_
    · exact Nat.lt_of_le_of_lt within.1.1 small
    · dsimp only
      rw [absent]
      refine (each formed.1 within.1.2 head).within.bind ?_
      rw [StateMap.load, Keyed.put_last sorted.above]
      exact later

theorem decodeFields_reads {encode : Schema → Value → Except Error (List UInt8)}
    {decode : Schema → Option Value → Decoder Value}
    (each : ∀ schema, Recovers registry settings (encode schema) (decode schema)) {name : String}
    {fields : List Field}
    {slots : List Value} (length : slots.length = fields.length)
    (formed : ∀ slot ∈ slots, slot.WellFormed registry)
    (within : ∀ slot ∈ slots, slot.Within settings) {bytes : List UInt8}
    (encoded : encodeFields encode name fields slots = .ok bytes) :
    Reads (decodeFields decode name fields []) bytes (slots.map Value.plain) := by
  induction fields generalizing slots bytes with
  | nil =>
    obtain rfl := List.eq_nil_of_length_eq_zero length
    cases encoded
    exact Reads.pure _
  | cons field fields ih =>
    cases slots with
    | nil => cases length
    | cons slot slots =>
      rw [List.forall_mem_cons] at formed within
      obtain ⟨first, others, head, tail, rfl⟩ := encodeFields_cons.mp encoded
      have later := ih (Nat.succ.inj length) formed.2 within.2 tail
      exact (each field.schema formed.1 within.1 head).within.bind later.map

/-! ### All values -/

section

variable {encodeRecord : RecordRef → Value → Except Error (List UInt8)}
  {decodeRecord : RecordRef → Option Value → Decoder Value}

theorem decodeNullable_recovers {branches : List Schema} {position : Nat}
    (nullable : Schema.nullPosition? branches = some position)
    (each : ∀ type ∈ branches, Recovers registry settings (encodeWith encodeRecord type)
      (decodeWith settings decodeRecord type)) :
    Recovers registry settings (encodeWith encodeRecord (.union branches))
      (decodeWith settings decodeRecord (.union branches)) := by
  intro value bytes formed within encoded
  obtain ⟨small, _, null⟩ := nullPosition?_some nullable
  rw [decodeWith]
  rcases (encodeNullable_ok nullable).mp encoded with ⟨isNull, rfl⟩ |
    ⟨_, type, written, found, value_ok, rfl⟩
  · obtain rfl := Value.eq_null_of_isNull isNull
    refine Reads.position fun start => (Decoder.varint_reads (Nat.lt_trans small (by decide))).bind_nil ?_
    rw [nullable]
    dsimp only
    rw [decodeBranch_some null, decodeWith]
    exact Reads.pure _
  · have other : 1 - position < wordBound := Nat.lt_of_le_of_lt (Nat.sub_le 1 position) (by decide)
    refine Reads.position fun start => (Decoder.varint_reads other).bind ?_
    rw [nullable]
    dsimp only
    rw [decodeBranch_some found]
    exact each type (List.mem_of_getElem? found) formed within value_ok

theorem decodeTagged_recovers {branches : List Schema} (tagged : Schema.nullPosition? branches = none)
    (each : ∀ type ∈ branches, Recovers registry settings (encodeWith encodeRecord type)
      (decodeWith settings decodeRecord type)) :
    Recovers registry settings (encodeWith encodeRecord (.union branches))
      (decodeWith settings decodeRecord (.union branches)) := by
  intro value bytes formed within encoded
  obtain ⟨branch, inner, type, written, rfl, found, inner_ok, rfl⟩ := (encodeTagged_ok tagged).mp encoded
  obtain ⟨small, formedInner⟩ := Value.wellFormed_union.mp formed
  rw [decodeWith, Value.plain_union]
  refine Reads.position fun start => (Decoder.varint_reads small).bind ?_
  rw [tagged]
  dsimp only
  rw [decodeBranch_some found]
  exact (each type (List.mem_of_getElem? found) formedInner (Value.within_union.mp within) inner_ok).map

theorem decodeWith_recovers (small : settings.maxBytes < wordBound)
    (nested : ∀ type, Recovers registry settings (encodeRecord type) (decodeRecord type)) (schema : Schema) :
    Recovers registry settings (encodeWith encodeRecord schema)
      (decodeWith settings decodeRecord schema) := by
  induction schema using Schema.induction with
  | primitive kind =>
    intro value bytes _ within encoded
    rw [encodeWith] at encoded
    rw [decodeWith]
    exact decodePrimitive_reads small within encoded
  | enum e =>
    intro value bytes formed _ encoded
    rw [encodeWith] at encoded
    rw [decodeWith]
    exact decodeEnum_reads formed encoded
  | fixed f =>
    intro value bytes _ _ encoded
    rw [encodeWith] at encoded
    rw [decodeWith]
    exact decodeFixed_reads encoded
  | record type =>
    intro value bytes formed within encoded
    rw [encodeWith] at encoded
    rw [decodeWith]
    exact nested type formed within encoded
  | array element ih =>
    intro value bytes formed within encoded
    obtain ⟨items, written, rfl, items_ok, rfl⟩ := encodeArray_ok.mp encoded
    obtain ⟨size, formedItems⟩ := Value.wellFormed_array.mp formed
    obtain ⟨allowed, withinItems⟩ := Value.within_array.mp within
    rw [decodeWith, Value.plain_array]
    refine (Decoder.count_reads size allowed).bind ?_
    exact (decodeItems_reads ih formedItems withinItems items_ok []).map
  | map schema ih =>
    intro value bytes formed within encoded
    obtain ⟨m, written, rfl, entries_ok, rfl⟩ := encodeMap_ok.mp encoded
    obtain ⟨shaped, formedEntries⟩ := Value.wellFormed_map.mp formed
    obtain ⟨allowed, withinEntries⟩ := Value.within_map.mp within
    rw [decodeWith, Value.plain_map]
    refine Reads.bind_nil ((Decoder.count_reads shaped.size allowed).bind ?_) (Reads.pure _)
    have sorted : Keyed.Sorted ([] ++ m.entries) := shaped.entries
    exact decodeEntries_reads small ih sorted formedEntries withinEntries entries_ok
  | union branches ih =>
    cases nullable : Schema.nullPosition? branches with
    | some position => exact decodeNullable_recovers nullable ih
    | none => exact decodeTagged_recovers nullable ih

end

theorem decodeNested_recovers (sound : registry.Sound) (small : settings.maxBytes < wordBound)
    (maxDepth left : Nat)
    (type : RecordRef) :
    Recovers registry settings (encodeNested maxDepth left type)
      (decodeNested registry settings maxDepth left type) := by
  induction left generalizing type with
  | zero =>
    intro value bytes _ _ encoded
    exact (encodeNested_zero encoded).elim
  | succ left ih =>
    intro value bytes formed within encoded
    obtain ⟨r, rfl, named, fields_ok⟩ := encodeNested_ok.mp encoded
    obtain ⟨shaped, formedSlots⟩ := Value.wellFormed_record.mp formed
    have known := shaped.layout
    rw [named] at known
    obtain ⟨compiled, found, same⟩ := Registry.record?_of_get? known
    rw [decodeNested_none sound maxDepth left found, same, Value.plain_record]
    refine Reads.map (Reads.bind_nil ?_ (Reads.pure _))
    exact decodeFields_reads (decodeWith_recovers small ih) shaped.slots formedSlots
      (Value.within_record.mp within) fields_ok

theorem decode_recovers (sound : registry.Sound) (small : settings.maxBytes < wordBound) (maxDepth : Nat)
    (schema : Schema) :
    Recovers registry settings (encode maxDepth schema) (decode registry settings maxDepth schema) :=
  decodeWith_recovers small (decodeNested_recovers sound small maxDepth maxDepth) schema

end TrackedRecord.Wire.Plain
