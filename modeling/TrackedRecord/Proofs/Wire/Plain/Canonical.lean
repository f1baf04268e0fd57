import TrackedRecord.Proofs.Wire.Plain.RoundTrip

/-!
# The canonical form of plain values

What is decoded can be written again, in no more bytes: the decoder checks what the writer checks, no
spelling of a number is shorter than the written one, and the entries of a map only change their order.
-/

namespace TrackedRecord.Wire.Plain

variable {registry : Registry} {settings : Settings}

/-- A value as it is decoded: well-formed, within the limits and without states. -/
structure Settled (registry : Registry) (settings : Settings) (value : Value) : Prop where
  formed : value.WellFormed registry
  within : value.Within settings
  plain : value.plain = value

/-- Whatever is decoded is settled and is written in at most the bytes that were taken for it. -/
def Canonical (registry : Registry) (settings : Settings) (encode : Value → Except Error (List UInt8))
    (decode : Option Value → Decoder Value) : Prop :=
  ∀ {c c' value}, decode none c = .ok value c' →
    Settled registry settings value ∧
      ∃ bytes, encode value = .ok bytes ∧ bytes.length + c'.rest.length ≤ c.rest.length

/-! ### Scalars -/

theorem decodePrimitive_ok {kind : Primitive} {value : Value} {c c' : Cursor}
    (h : decodePrimitive settings kind c = .ok value c') :
    Settled registry settings value ∧
      ∃ bytes, encodePrimitive kind value = .ok bytes ∧ bytes.length + c'.rest.length ≤ c.rest.length := by
  cases kind with
  | null =>
    obtain ⟨rfl, rfl⟩ := Decoder.pure_ok h
    exact ⟨⟨trivial, trivial, rfl⟩, [], rfl, by simp⟩
  | boolean =>
    obtain ⟨b, c₁, read, h⟩ := Decoder.bind_ok h
    obtain ⟨rfl, rfl⟩ := Decoder.pure_ok h
    exact ⟨⟨trivial, trivial, rfl⟩, _, rfl, Decoder.boolean_ok read⟩
  | int =>
    obtain ⟨n, c₁, read, h⟩ := Decoder.bind_ok h
    obtain ⟨rfl, rfl⟩ := Decoder.pure_ok h
    exact ⟨⟨trivial, trivial, rfl⟩, _, rfl, Decoder.int32_ok read⟩
  | long =>
    obtain ⟨n, c₁, read, h⟩ := Decoder.bind_ok h
    obtain ⟨rfl, rfl⟩ := Decoder.pure_ok h
    exact ⟨⟨trivial, trivial, rfl⟩, _, rfl, Decoder.int64_ok read⟩
  | float =>
    obtain ⟨bits, c₁, read, h⟩ := Decoder.bind_ok h
    obtain ⟨rfl, rfl⟩ := Decoder.pure_ok h
    exact ⟨⟨trivial, trivial, rfl⟩, _, rfl, Decoder.float32_ok read⟩
  | double =>
    obtain ⟨bits, c₁, read, h⟩ := Decoder.bind_ok h
    obtain ⟨rfl, rfl⟩ := Decoder.pure_ok h
    exact ⟨⟨trivial, trivial, rfl⟩, _, rfl, Decoder.float64_ok read⟩
  | bytes =>
    obtain ⟨data, c₁, read, h⟩ := Decoder.bind_ok h
    obtain ⟨rfl, rfl⟩ := Decoder.pure_ok h
    obtain ⟨_, allowed, shorter⟩ := Decoder.byteString_ok read
    exact ⟨⟨trivial, allowed, rfl⟩, _, rfl, shorter⟩
  | string =>
    obtain ⟨s, c₁, read, h⟩ := Decoder.bind_ok h
    obtain ⟨rfl, rfl⟩ := Decoder.pure_ok h
    obtain ⟨allowed, shorter⟩ := Decoder.text_ok read
    exact ⟨⟨trivial, allowed, rfl⟩, _, rfl, shorter⟩

theorem decodeEnum_ok {e : EnumType} {value : Value} {c c' : Cursor} (h : decodeEnum e c = .ok value c') :
    Settled registry settings value ∧
      ∃ bytes, encodeEnum e value = .ok bytes ∧ bytes.length + c'.rest.length ≤ c.rest.length := by
  unfold decodeEnum at h
  rw [Decoder.position_bind] at h
  obtain ⟨ordinal, c₁, read, h⟩ := Decoder.bind_ok h
  split at h
  · rename_i inside
    obtain ⟨rfl, rfl⟩ := Decoder.pure_ok h
    obtain ⟨small, shorter⟩ := Decoder.varint_ok read
    exact ⟨⟨small, trivial, rfl⟩, _, if_pos inside, shorter⟩
  · exact (Decoder.throw_ok h).elim

theorem decodeFixed_ok {f : FixedType} {value : Value} {c c' : Cursor} (h : decodeFixed f c = .ok value c') :
    Settled registry settings value ∧
      ∃ bytes, encodeFixed f value = .ok bytes ∧ bytes.length + c'.rest.length ≤ c.rest.length := by
  obtain ⟨data, c₁, read, h⟩ := Decoder.bind_ok h
  obtain ⟨rfl, rfl⟩ := Decoder.pure_ok h
  obtain ⟨front, length, _⟩ := Decoder.exact_ok read
  refine ⟨⟨trivial, trivial, rfl⟩, _, if_pos length, ?_⟩
  exact Nat.le_of_eq (by rw [front, List.length_append])

/-! ### Sequences -/

theorem decodeItems_ok {encode : Value → Except Error (List UInt8)} {decode : Option Value → Decoder Value}
    (each : Canonical registry settings encode decode) {left i : Nat} {before items : List Value}
    {c c' : Cursor}
    (h : decodeItems decode left i [] before c = .ok items c') :
    ∃ new, items = before.reverse ++ new ∧ new.length = left ∧
      (∀ item ∈ new, Settled registry settings item) ∧
      ∃ bytes, encodeItems encode i new = .ok bytes ∧ bytes.length + c'.rest.length ≤ c.rest.length := by
  induction left generalizing i before c with
  | zero =>
    obtain ⟨rfl, rfl⟩ := Decoder.pure_ok h
    exact ⟨[], (List.append_nil _).symm, rfl, List.forall_mem_nil _, [], rfl, by simp⟩
  | succ left ih =>
    obtain ⟨item, c₁, read, h⟩ := Decoder.bind_ok h
    obtain ⟨settled, first, written, shorter⟩ := each (Decoder.within_ok.mp read)
    obtain ⟨new, rfl, length, others, rest, writtenRest, shorterRest⟩ := ih h
    refine ⟨item :: new, ?_, by rw [List.length_cons, length], List.forall_mem_cons.mpr ⟨settled, others⟩,
      first ++ rest, ?_, ?_⟩
    · rw [List.reverse_cons, List.append_assoc, List.singleton_append]
    · exact encodeItems_cons.mpr ⟨first, rest, written, writtenRest, rfl⟩
    · rw [List.length_append]
      omega

/-- Where a new key stands does not count for the number of bytes. -/
theorem encodeEntries_put {encode : Value → Except Error (List UInt8)} {entries : List (String × Value)}
    {key : String}
    {value : Value} (absent : ∀ entry ∈ entries, entry.1 ≠ key) {first written : List UInt8}
    (head : encode value = .ok first) (others : encodeEntries encode entries = .ok written) :
    ∃ bytes, encodeEntries encode (Keyed.put key value entries) = .ok bytes ∧
      bytes.length = (encodeText key).length + first.length + written.length := by
  induction entries generalizing written with
  | nil =>
    refine ⟨_, encodeEntries_cons.mpr ⟨first, written, head, others, rfl⟩, ?_⟩
    rw [List.length_append, List.length_append]
  | cons entry rest ih =>
    obtain ⟨k, v⟩ := entry
    have different : key ≠ k := fun same => absent (k, v) List.mem_cons_self same.symm
    by_cases less : key < k
    · rw [Keyed.put, if_pos less]
      refine ⟨_, encodeEntries_cons.mpr ⟨first, written, head, others, rfl⟩, ?_⟩
      rw [List.length_append, List.length_append]
    · rw [Keyed.put, if_neg less, if_neg different]
      obtain ⟨one, more, headRest, tail, rfl⟩ := encodeEntries_cons.mp others
      obtain ⟨bytes, writtenRest, length⟩ :=
        ih (fun entry later => absent entry (List.mem_cons_of_mem _ later)) tail
      refine ⟨_, encodeEntries_cons.mpr ⟨one, bytes, headRest, writtenRest, rfl⟩, ?_⟩
      simp only [List.length_append, length]
      omega

/-- What the entries that were read so far are like, and how they are written. -/
structure Loaded (registry : Registry) (settings : Settings) (encode : Value → Except Error (List UInt8))
    (m : StateMap Value) (written : List UInt8) : Prop where
  states : m.states = []
  sorted : Keyed.Sorted m.entries
  settled : ∀ entry ∈ m.entries, settings.AllowsText entry.1 ∧ Settled registry settings entry.2
  encoded : encodeEntries encode m.entries = .ok written

/-- The map of such entries is settled, unless there are too many of them. -/
theorem Loaded.settledMap {encode : Value → Except Error (List UInt8)} {m : StateMap Value}
    {written : List UInt8} (loaded : Loaded registry settings encode m written)
    (small : m.entries.length < wordBound) (allowed : m.entries.length ≤ settings.maxCollection) :
    Settled registry settings (.map m) := by
  refine ⟨Value.wellFormed_map.mpr ⟨⟨loaded.sorted, ?_, small, ?_⟩,
    fun entry member => (loaded.settled entry member).2.formed⟩, ?_, ?_⟩
  · rw [loaded.states]
    exact List.Pairwise.nil
  · rw [loaded.states]
    exact wordBound_pos
  · exact Value.within_map.mpr ⟨allowed,
      fun entry member => (loaded.settled entry member).imp_right Settled.within⟩
  · have same : m.entries.map (fun entry => (entry.1, entry.2.plain)) = m.entries :=
      (List.map_congr_left fun entry member =>
        congrArg (Prod.mk entry.1) (loaded.settled entry member).2.plain).trans (List.map_id' _)
    rw [Value.plain_map, same, ← loaded.states]

theorem decodeEntries_ok {encode : Value → Except Error (List UInt8)} {decode : Option Value → Decoder Value}
    (each : Canonical registry settings encode decode) {left : Nat} {m m' : StateMap Value}
    {written : List UInt8}
    (loaded : Loaded registry settings encode m written) {c c' : Cursor}
    (h : decodeEntries settings decode StateMap.empty left m c = .ok m' c') :
    m'.entries.length = m.entries.length + left ∧
      ∃ bytes, Loaded registry settings encode m' bytes ∧
        bytes.length + c'.rest.length ≤ written.length + c.rest.length := by
  induction left generalizing m written c with
  | zero =>
    obtain ⟨rfl, rfl⟩ := Decoder.pure_ok h
    exact ⟨rfl, written, loaded, Nat.le_refl _⟩
  | succ left ih =>
    unfold decodeEntries at h
    rw [Decoder.position_bind] at h
    obtain ⟨key, c₁, name, h⟩ := Decoder.bind_ok h
    dsimp only at h
    split at h
    · exact (Decoder.throw_ok h).elim
    · rename_i fresh
      obtain ⟨value, c₂, read, h⟩ := Decoder.bind_ok h
      obtain ⟨allowed, shorterName⟩ := Decoder.text_ok name
      obtain ⟨settled, first, head, shorter⟩ := each (Decoder.within_ok.mp read)
      have absent : ∀ entry ∈ m.entries, entry.1 ≠ key :=
        Keyed.contains_eq_false_iff.mp (Bool.eq_false_iff.mpr fresh)
      obtain ⟨more, encoded, length⟩ := encodeEntries_put absent head loaded.encoded
      have grown : (m.load key value).entries.length = m.entries.length + 1 :=
        (Keyed.put_perm absent).length_eq
      have next : Loaded registry settings encode (m.load key value) more := by
        refine ⟨loaded.states, Keyed.put_sorted loaded.sorted, ?_, encoded⟩
        intro entry member
        rcases Keyed.mem_put member with rfl | old
        · exact ⟨allowed, settled⟩
        · exact loaded.settled entry old
      obtain ⟨count, bytes, result, shorterRest⟩ := ih next h
      exact ⟨by omega, bytes, result, by omega⟩

theorem decodeFields_ok {encode : Schema → Value → Except Error (List UInt8)}
    {decode : Schema → Option Value → Decoder Value}
    (each : ∀ schema, Canonical registry settings (encode schema) (decode schema)) {name : String}
    {fields : List Field}
    {slots : List Value} {c c' : Cursor} (h : decodeFields decode name fields [] c = .ok slots c') :
    slots.length = fields.length ∧ (∀ slot ∈ slots, Settled registry settings slot) ∧
      ∃ bytes, encodeFields encode name fields slots = .ok bytes ∧
        bytes.length + c'.rest.length ≤ c.rest.length := by
  induction fields generalizing slots c with
  | nil =>
    obtain ⟨rfl, rfl⟩ := Decoder.pure_ok h
    exact ⟨rfl, List.forall_mem_nil _, [], rfl, by simp⟩
  | cons field fields ih =>
    obtain ⟨value, c₁, read, h⟩ := Decoder.bind_ok h
    obtain ⟨values, c₂, others, h⟩ := Decoder.bind_ok h
    obtain ⟨rfl, rfl⟩ := Decoder.pure_ok h
    obtain ⟨settled, first, head, shorter⟩ := each field.schema (Decoder.within_ok.mp read)
    obtain ⟨length, settledRest, rest, tail, shorterRest⟩ := ih others
    refine ⟨by rw [List.length_cons, List.length_cons, length],
      List.forall_mem_cons.mpr ⟨settled, settledRest⟩, first ++ rest, ?_, ?_⟩
    · exact encodeFields_cons.mpr ⟨first, rest, head, tail, rfl⟩
    · rw [List.length_append]
      omega

/-! ### All values -/

section

variable {encodeRecord : RecordRef → Value → Except Error (List UInt8)}
  {decodeRecord : RecordRef → Option Value → Decoder Value}

theorem decodeArray_canonical {element : Schema}
    (each : Canonical registry settings (encodeWith encodeRecord element)
      (decodeWith settings decodeRecord element)) :
    Canonical registry settings (encodeWith encodeRecord (.array element))
      (decodeWith settings decodeRecord (.array element)) := by
  intro c c' value h
  rw [decodeWith] at h
  obtain ⟨count, c₁, read, h⟩ := Decoder.bind_ok h
  obtain ⟨items, c₂, reads, h⟩ := Decoder.bind_ok h
  obtain ⟨rfl, rfl⟩ := Decoder.pure_ok h
  obtain ⟨small, allowed, shorter⟩ := Decoder.count_ok read
  obtain ⟨_, rfl, rfl, settled, bytes, written, shorterRest⟩ := decodeItems_ok each reads
  refine ⟨⟨?_, ?_, ?_⟩, _, encodeArray_ok.mpr ⟨items, bytes, rfl, written, rfl⟩, ?_⟩
  · exact Value.wellFormed_array.mpr ⟨small, fun item member => (settled item member).formed⟩
  · exact Value.within_array.mpr ⟨allowed, fun item member => (settled item member).within⟩
  · rw [Value.plain_array, List.map_congr_left fun item member => (settled item member).plain, List.map_id']
  · rw [List.length_append]
    omega

theorem decodeMap_canonical {schema : Schema}
    (each : Canonical registry settings (encodeWith encodeRecord schema)
      (decodeWith settings decodeRecord schema)) :
    Canonical registry settings (encodeWith encodeRecord (.map schema))
      (decodeWith settings decodeRecord (.map schema)) := by
  intro c c' value h
  rw [decodeWith] at h
  obtain ⟨m, c₁, loads, h⟩ := Decoder.bind_ok h
  obtain ⟨rfl, rfl⟩ := Decoder.pure_ok h
  obtain ⟨count, c₂, read, entries⟩ := Decoder.bind_ok loads
  obtain ⟨small, allowed, shorter⟩ := Decoder.count_ok read
  have start : Loaded registry settings (encodeWith encodeRecord schema) StateMap.empty [] :=
    ⟨rfl, List.Pairwise.nil, List.forall_mem_nil _, rfl⟩
  obtain ⟨length, bytes, loaded, shorterRest⟩ := decodeEntries_ok each start entries
  obtain rfl : m.entries.length = count := length.trans (Nat.zero_add count)
  refine ⟨loaded.settledMap small allowed, _, encodeMap_ok.mpr ⟨m, bytes, rfl, loaded.encoded, rfl⟩, ?_⟩
  rw [List.length_append]
  rw [List.length_nil] at shorterRest
  omega

/-- The value in a branch, with the schema of the branch. -/
theorem decodeBranch_ok {branches : List Schema}
    (each : ∀ type ∈ branches, Canonical registry settings (encodeWith encodeRecord type)
      (decodeWith settings decodeRecord type))
    {outside : Error} {branch : Nat} {value : Value} {c c' : Cursor}
    (h : decodeBranch settings decodeRecord outside branches branch none c = .ok value c') :
    ∃ type, branches[branch]? = some type ∧ Settled registry settings value ∧ ∃ bytes,
      encodeWith encodeRecord type value = .ok bytes ∧ bytes.length + c'.rest.length ≤ c.rest.length := by
  cases found : branches[branch]? with
  | none =>
    rw [decodeBranch_none found] at h
    exact (Decoder.throw_ok h).elim
  | some type =>
    rw [decodeBranch_some found] at h
    exact ⟨type, rfl, each type (List.mem_of_getElem? found) h⟩

/-- Only the null value is written in a null branch. -/
theorem isNull_of_written {value : Value} {bytes : List UInt8}
    (written : encodeWith encodeRecord (.primitive .null) value = .ok bytes) : value.isNull = true := by
  rw [encodeWith] at written
  cases value with
  | null => rfl
  | _ => cases written

theorem decodeTagged_canonical {branches : List Schema} (tagged : Schema.nullPosition? branches = none)
    (each : ∀ type ∈ branches, Canonical registry settings (encodeWith encodeRecord type)
      (decodeWith settings decodeRecord type)) :
    Canonical registry settings (encodeWith encodeRecord (.union branches))
      (decodeWith settings decodeRecord (.union branches)) := by
  intro c c' value h
  rw [decodeWith, Decoder.position_bind] at h
  obtain ⟨branch, c₁, read, h⟩ := Decoder.bind_ok h
  obtain ⟨small, shorter⟩ := Decoder.varint_ok read
  rw [tagged] at h
  obtain ⟨inner, c₂, reads, h⟩ := Decoder.bind_ok h
  obtain ⟨rfl, rfl⟩ := Decoder.pure_ok h
  obtain ⟨type, found, settled, bytes, written, shorterRest⟩ := decodeBranch_ok each reads
  refine ⟨⟨?_, ?_, ?_⟩, _, (encodeTagged_ok tagged).mpr
    ⟨branch, inner, type, bytes, rfl, found, written, rfl⟩, ?_⟩
  · exact Value.wellFormed_union.mpr ⟨small, settled.formed⟩
  · exact Value.within_union.mpr settled.within
  · rw [Value.plain_union, settled.plain]
  · rw [List.length_append]
    omega

theorem decodeNullable_canonical {branches : List Schema} {position : Nat}
    (nullable : Schema.nullPosition? branches = some position)
    (each : ∀ type ∈ branches, Canonical registry settings (encodeWith encodeRecord type)
      (decodeWith settings decodeRecord type)) :
    Canonical registry settings (encodeWith encodeRecord (.union branches))
      (decodeWith settings decodeRecord (.union branches)) := by
  intro c c' value h
  rw [decodeWith, Decoder.position_bind] at h
  obtain ⟨branch, c₁, read, h⟩ := Decoder.bind_ok h
  obtain ⟨_, shorter⟩ := Decoder.varint_ok read
  rw [nullable] at h
  obtain ⟨type, found, settled, bytes, written, shorterRest⟩ := decodeBranch_ok each h
  obtain ⟨small, length, null⟩ := nullPosition?_some nullable
  refine ⟨settled, ?_⟩
  cases isNull : value.isNull with
  | true =>
    refine ⟨_, (encodeNullable_ok nullable).mpr (Or.inl ⟨isNull, rfl⟩), ?_⟩
    have := Varint.ofNat_length_pos branch
    rw [Varint.ofNat_length_one (Nat.lt_trans small (by decide))]
    omega
  | false =>
    have inside : branch < branches.length := (List.getElem?_eq_some_iff.mp found).1
    have other : branch ≠ position := by
      rintro rfl
      obtain rfl := Option.some.inj (null.symm.trans found)
      exact Bool.false_ne_true (isNull.symm.trans (isNull_of_written written))
    obtain rfl : branch = 1 - position := by omega
    refine ⟨_, (encodeNullable_ok nullable).mpr (Or.inr ⟨isNull, type, bytes, found, written, rfl⟩), ?_⟩
    rw [List.length_append]
    omega

theorem decodeWith_canonical
    (nested : ∀ type, Canonical registry settings (encodeRecord type) (decodeRecord type)) (schema : Schema) :
    Canonical registry settings (encodeWith encodeRecord schema)
      (decodeWith settings decodeRecord schema) := by
  induction schema using Schema.induction with
  | primitive kind =>
    intro c c' value h
    rw [decodeWith] at h
    rw [encodeWith]
    exact decodePrimitive_ok h
  | enum e =>
    intro c c' value h
    rw [decodeWith] at h
    rw [encodeWith]
    exact decodeEnum_ok h
  | fixed f =>
    intro c c' value h
    rw [decodeWith] at h
    rw [encodeWith]
    exact decodeFixed_ok h
  | record type =>
    intro c c' value h
    rw [decodeWith] at h
    rw [encodeWith]
    exact nested type h
  | array element ih => exact decodeArray_canonical ih
  | map schema ih => exact decodeMap_canonical ih
  | union branches ih =>
    cases nullable : Schema.nullPosition? branches with
    | none => exact decodeTagged_canonical nullable ih
    | some position => exact decodeNullable_canonical nullable ih

end

theorem decodeNested_canonical (sound : registry.Sound) (maxDepth left : Nat) (type : RecordRef) :
    Canonical registry settings (encodeNested maxDepth left type)
      (decodeNested registry settings maxDepth left type) := by
  induction left generalizing type with
  | zero =>
    intro c c' value h
    rw [decodeNested, Decoder.position_bind] at h
    exact (Decoder.throw_ok h).elim
  | succ left ih =>
    intro c c' value h
    cases found : registry.record? type.fullName with
    | none =>
      rw [decodeNested, found] at h
      exact (Decoder.throw_ok h).elim
    | some compiled =>
      rw [decodeNested_none sound maxDepth left found] at h
      obtain ⟨r, c₁, read, h⟩ := Decoder.bind_ok h
      obtain ⟨rfl, rfl⟩ := Decoder.pure_ok h
      obtain ⟨slots, c₂, fields, read⟩ := Decoder.bind_ok read
      obtain ⟨rfl, rfl⟩ := Decoder.pure_ok read
      obtain ⟨length, settled, bytes, written, shorter⟩ := decodeFields_ok (decodeWith_canonical ih) fields
      have named := Registry.fullName_of_record? found
      obtain ⟨selected, selectedLen⟩ := (FieldBits.new_wellFormed compiled.layout.fieldCount).setAll
      refine ⟨⟨?_, ?_, ?_⟩, bytes, encodeNested_ok.mpr ⟨_, rfl, named, written⟩, shorter⟩
      · refine Value.wellFormed_record.mpr ⟨⟨?_, length, FieldBits.new_wellFormed _, rfl, selected,
          selectedLen⟩, ?_⟩
        · rw [← Registry.get?_of_record? found, ← named]
          rfl
        · exact fun slot member => (settled slot member).formed
      · exact Value.within_record.mpr fun slot member => (settled slot member).within
      · rw [Value.plain_record, List.map_congr_left fun slot member => (settled slot member).plain,
          List.map_id']

/-- The entry states of a map have no part in its plain encoding. -/
theorem encodeWith_withTable {encodeRecord : RecordRef → Value → Except Error (List UInt8)}
    {states : List (String × EntryState)}
    (nested : ∀ type value bytes, encodeRecord type value = .ok bytes →
      encodeRecord type (value.withTable states) = .ok bytes)
    {schema : Schema} {value : Value} {bytes : List UInt8}
    (h : encodeWith encodeRecord schema value = .ok bytes) :
    encodeWith encodeRecord schema (value.withTable states) = .ok bytes := by
  induction schema using Schema.induction generalizing value bytes with
  | primitive kind =>
    rw [encodeWith] at h ⊢
    cases value with
    | map m => cases kind <;> cases h
    | _ => exact h
  | enum e =>
    rw [encodeWith] at h ⊢
    cases value with
    | map m => cases h
    | _ => exact h
  | fixed f =>
    rw [encodeWith] at h ⊢
    cases value with
    | map m => cases h
    | _ => exact h
  | record type =>
    rw [encodeWith] at h ⊢
    exact nested type value bytes h
  | array element ih =>
    obtain ⟨items, encoded, rfl, _, _⟩ := encodeArray_ok.mp h
    exact h
  | map schema ih =>
    obtain ⟨m, encoded, rfl, written, rfl⟩ := encodeMap_ok.mp h
    exact encodeMap_ok.mpr ⟨⟨m.entries, states⟩, encoded, rfl, written, rfl⟩
  | union branches ih =>
    cases nullable : Schema.nullPosition? branches with
    | none =>
      obtain ⟨branch, inner, type, encoded, rfl, _⟩ := (encodeTagged_ok nullable).mp h
      exact h
    | some position =>
      have isNull : (value.withTable states).isNull = value.isNull := by cases value <;> rfl
      rw [encodeNullable_ok nullable] at h ⊢
      rw [isNull]
      rcases h with null | ⟨other, type, encoded, found, written, rfl⟩
      · exact Or.inl null
      · exact Or.inr ⟨other, type, encoded, found, ih type (List.mem_of_getElem? found) written, rfl⟩

theorem encode_withTable {maxDepth : Nat} {schema : Schema} {value : Value} {bytes : List UInt8}
    (states : List (String × EntryState)) (h : encode maxDepth schema value = .ok bytes) :
    encode maxDepth schema (value.withTable states) = .ok bytes := by
  refine encodeWith_withTable ?_ h
  intro type value bytes written
  cases value with
  | map m => cases maxDepth <;> cases written
  | _ => exact written

theorem decode_settled (sound : registry.Sound) (maxDepth : Nat) (schema : Schema) :
    Canonical registry settings (encode maxDepth schema) (decode registry settings maxDepth schema) :=
  decodeWith_canonical (decodeNested_canonical sound maxDepth maxDepth) schema

end TrackedRecord.Wire.Plain
