import TrackedRecord.Proofs.Wire.Payload.RoundTrip
import TrackedRecord.Proofs.Wire.Plain.Canonical

/-!
# The canonical form of payloads

The contents of a payload are written again in no more bytes, and are read back from them.
-/

namespace TrackedRecord.Wire.Payload

variable {registry : Registry} {settings : Settings} {layout : Layout}

theorem decodeBitmap_ok {which : String} {bits : FieldBits} {c c' : Cursor}
    (h : decodeBitmap layout which c = .ok bits c') :
    bits.WellFormed ∧ bits.len = layout.fieldCount ∧ layout.fieldCount < wordBound ∧
      (encodeBits bits).length + c'.rest.length ≤ c.rest.length := by
  unfold decodeBitmap at h
  rw [Decoder.position_bind] at h
  obtain ⟨len, c₁, read, h⟩ := Decoder.bind_ok h
  dsimp only at h
  split at h
  · exact (Decoder.throw_ok h).elim
  · rename_i same
    obtain ⟨small, shorter⟩ := Decoder.varint_ok read
    obtain ⟨formed, rfl, length⟩ := Decoder.packedBits_formed h
    have packed : (encodeBits bits).length = (Varint.ofNat bits.len).length + packedLength bits.len := by
      rw [← packedBytes_length, ← List.length_append]
      rfl
    have len : bits.len = layout.fieldCount := Decidable.not_not.mp same
    exact ⟨formed, len, len ▸ small, by omega⟩

/-! ### Tables of entry states -/

/-- A table as it is decoded. -/
structure Table (settings : Settings) (states : List (String × EntryState)) : Prop where
  sorted : Keyed.Sorted states
  keys : ∀ entry ∈ states, settings.AllowsText entry.1

theorem decodeStatesFrom_ok {left : Nat} {before states : List (String × EntryState)}
    (table : Table settings before)
    {c c' : Cursor} (h : decodeStatesFrom settings left before c = .ok states c') :
    Table settings states ∧ states.length = before.length + left ∧
      (states.flatMap encodeState).length + c'.rest.length ≤
        (before.flatMap encodeState).length + c.rest.length := by
  induction left generalizing before c with
  | zero =>
    obtain ⟨rfl, rfl⟩ := Decoder.pure_ok h
    exact ⟨table, rfl, Nat.le_refl _⟩
  | succ left ih =>
    unfold decodeStatesFrom at h
    rw [Decoder.position_bind] at h
    obtain ⟨key, c₁, name, h⟩ := Decoder.bind_ok h
    rw [Decoder.position_bind] at h
    obtain ⟨tag, c₂, read, h⟩ := Decoder.bind_ok h
    cases known : EntryState.ofTag? tag with
    | none =>
      rw [known] at h
      exact (Decoder.throw_ok h).elim
    | some state =>
      rw [known] at h
      dsimp only at h
      split at h
      · exact (Decoder.throw_ok h).elim
      · rename_i fresh
        obtain ⟨allowed, shorterName⟩ := Decoder.text_ok name
        have taken := (Decoder.byte_ok read).1
        have absent : ∀ entry ∈ before, entry.1 ≠ key :=
          Keyed.contains_eq_false_iff.mp (Bool.eq_false_iff.mpr fresh)
        have reordered : (Keyed.put key state before).Perm ((key, state) :: before) := Keyed.put_perm absent
        have grown := reordered.length_eq
        have length := (reordered.flatMap_right encodeState).length_eq
        rw [List.flatMap_cons, encodeState, List.length_append, List.length_append, List.length_singleton]
          at length
        rw [List.length_cons] at grown
        have next : Table settings (Keyed.put key state before) := by
          refine ⟨Keyed.put_sorted table.sorted, ?_⟩
          intro entry member
          rcases Keyed.mem_put member with rfl | old
          · exact allowed
          · exact table.keys entry old
        obtain ⟨tableAll, count, shorter⟩ := ih next h
        rw [taken, List.length_cons] at shorterName
        exact ⟨tableAll, by omega, by omega⟩

theorem fieldStates_ok {field : Field} {states : List (String × EntryState)} {c c' : Cursor}
    (h : fieldStates settings field c = .ok states c') :
    Keyed.Sorted states ∧ states.length < wordBound ∧ (field.kind = .map → settings.AllowsTable states) ∧
      (field.kind ≠ .map → states = []) ∧
      ∀ value, value.mapOrEmpty.states = states →
        (encodeTable field value).length + c'.rest.length ≤ c.rest.length := by
  unfold fieldStates at h
  split at h
  · rename_i map
    obtain ⟨count, c₁, read, h⟩ := Decoder.bind_ok h
    obtain ⟨small, allowed, shorter⟩ := Decoder.count_ok read
    obtain ⟨table, length, shorterTable⟩ := decodeStatesFrom_ok ⟨List.Pairwise.nil, List.forall_mem_nil _⟩ h
    obtain rfl : states.length = count := length.trans (Nat.zero_add count)
    refine ⟨table.sorted, small, fun _ => ⟨allowed, table.keys⟩, fun other => (other map).elim, ?_⟩
    rintro value rfl
    rw [encodeTable, if_pos map, encodeStates, List.length_append]
    rw [List.flatMap_nil, List.length_nil] at shorterTable
    omega
  · rename_i other
    obtain ⟨rfl, rfl⟩ := Decoder.pure_ok h
    refine ⟨List.Pairwise.nil, wordBound_pos, fun map => (other map).elim, fun _ => rfl, ?_⟩
    intro value _
    exact Nat.le_of_eq (by rw [encodeTable, if_neg other, List.length_nil, Nat.zero_add])

/-! ### Fields -/

theorem plain_states {value : Value} (plain : value.plain = value) : value.mapOrEmpty.states = [] := by
  cases value with
  | map m =>
    rw [Value.plain_map] at plain
    exact (congrArg StateMap.states (Value.map.inj plain)).symm
  | _ => rfl

theorem withStates_ok {start : Nat} {states : List (String × EntryState)} (sorted : Keyed.Sorted states)
    {value result : Value} (none : value.mapOrEmpty.states = [])
    (h : withStates start states value = .ok result) :
    result = value.withTable states ∧ result.mapOrEmpty.states = states := by
  cases value with
  | map m =>
    rw [withStates, foldl_setState, show m.states = [] from none] at h
    cases h
    have same := Keyed.ofList_sorted sorted
    exact ⟨congrArg (fun states => Value.map ⟨m.entries, states⟩) same, same⟩
  | _ =>
    have empty : states = [] := by
      cases states with
      | nil => rfl
      | cons entry rest => cases h
    subst empty
    cases h
    exact ⟨rfl, rfl⟩

theorem readField_ok (sound : registry.Sound) (small : settings.maxBytes < wordBound) (name : String)
    {field : Field}
    {value : Value} {c c' : Cursor} (h : readField registry settings field none c = .ok value c') :
    ∃ bytes, encodeField settings.maxDepth name field value = .ok bytes ∧
      Reads (readField registry settings field none) bytes value ∧
        bytes.length + c'.rest.length ≤ c.rest.length := by
  obtain ⟨states, c₁, table, h⟩ := Decoder.bind_ok h
  rw [Decoder.position_bind] at h
  obtain ⟨plain, c₂, read, h⟩ := Decoder.bind_ok h
  cases given : withStates c₁.pos states plain with
  | error e =>
    rw [given] at h
    exact (Decoder.throw_ok h).elim
  | ok result =>
    rw [given] at h
    obtain ⟨rfl, rfl⟩ := Decoder.pure_ok h
    obtain ⟨sorted, count, allowed, absent, shorterTable⟩ := fieldStates_ok table
    obtain ⟨settled, encoded, written, shorter⟩ :=
      Plain.decode_settled sound settings.maxDepth field.schema read
    obtain ⟨same, shown⟩ := withStates_ok sorted (plain_states settled.plain) given
    have tableSame : tableOf field value = states := by
      unfold tableOf
      split
      · exact shown
      · exact (absent ‹_›).symm
    have formed : value.WellFormed registry := same ▸ Value.withTable_wellFormed sorted count settled.formed
    have within : value.Within settings := same ▸ Value.withTable_within states settled.within
    have restored : kept field value = value := by
      rw [kept, tableSame, same, Value.withTable_plain, settled.plain]
    have whole : encodeField settings.maxDepth name field value = .ok (encodeTable field value ++ encoded) :=
      encodeField_ok.mpr ⟨encoded, same ▸ Plain.encode_withTable states written, rfl⟩
    refine ⟨_, whole, ?_, ?_⟩
    · have reads := readField_reads sound small formed within (fun map => shown.symm ▸ allowed map) whole
      rwa [restored] at reads
    · have := shorterTable value shown
      rw [List.length_append]
      omega

/-- The fields are written from any slots that hold them. -/
theorem readFields_ok (sound : registry.Sound) (small : settings.maxBytes < wordBound) {indices : List Nat}
    {values : List (Nat × Value)} {c c' : Cursor}
    (h : readFields registry settings layout indices c = .ok values c') :
    ∃ bytes, (∀ slots : List Value, (∀ entry ∈ values, slots[entry.1]? = some entry.2) →
        encodeFields settings.maxDepth layout slots indices = .ok bytes) ∧
      Reads (readFields registry settings layout indices) bytes values ∧
        bytes.length + c'.rest.length ≤ c.rest.length := by
  induction indices generalizing values c with
  | nil =>
    obtain ⟨rfl, rfl⟩ := Decoder.pure_ok h
    exact ⟨[], fun _ _ => rfl, Reads.pure _, by simp⟩
  | cons index rest ih =>
    unfold readFields at h ⊢
    cases found : layout.fields[index]? with
    | none =>
      rw [found] at h
      exact (Decoder.throw_ok h).elim
    | some field =>
      rw [found] at h
      obtain ⟨value, c₁, read, h⟩ := Decoder.bind_ok h
      obtain ⟨others, c₂, tail, h⟩ := Decoder.bind_ok h
      obtain ⟨rfl, rfl⟩ := Decoder.pure_ok h
      obtain ⟨first, written, reads, shorter⟩ := readField_ok sound small layout.name
        (Decoder.within_ok.mp read)
      obtain ⟨bytes, writtenRest, readsRest, shorterRest⟩ := ih tail
      refine ⟨first ++ bytes, ?_, reads.within.bind readsRest.map, ?_⟩
      · intro slots holds
        rw [List.forall_mem_cons] at holds
        exact encodeFields_cons.mpr ⟨field, value, first, bytes, found, holds.1, written,
          writtenRest slots holds.2, rfl⟩
      · rw [List.length_append]
        omega

/-! ### Payloads -/

theorem contents_canonical (sound : registry.Sound) (small : settings.maxBytes < wordBound)
    {bytes : List UInt8} {contents : Contents}
    (h : contentsOf registry settings layout bytes = .ok contents) {target : Record Value}
    (length : target.slots.length = layout.fieldCount) :
    ∃ shorter, encode settings.maxDepth layout (contents.onto target) = .ok shorter ∧
      shorter.length ≤ bytes.length ∧ Reads (read registry settings layout) shorter contents := by
  have fits := contentsOf_fits h
  obtain ⟨c, run, nothing⟩ := contentsOf_ok h
  obtain ⟨c₁, c₂, dirty, readable, fields⟩ := read_ok run
  obtain ⟨formedDirty, lenDirty, sized, shorterDirty⟩ := decodeBitmap_ok dirty
  obtain ⟨formedReadable, lenReadable, _, shorterReadable⟩ := decodeBitmap_ok readable
  obtain ⟨written, encoded, reads, shorterFields⟩ := readFields_ok sound small fields
  have holds : ∀ entry ∈ contents.values, (contents.onto target).slots[entry.1]? = some entry.2 := by
    intro entry member
    have distinct : (contents.values.map Prod.fst).Nodup := fits.indices ▸ contents.readable.ones_nodup
    have inside := fits.inside entry.1 (fits.indices ▸ List.mem_map_of_mem (f := Prod.fst) member)
    exact store_of_mem distinct member (length ▸ inside)
  refine ⟨_, encode_ok.mpr ⟨written, encoded _ holds, rfl⟩, ?_, ?_⟩
  · rw [nothing, List.length_nil] at shorterFields
    rw [Cursor.start] at shorterDirty
    rw [List.length_append, List.length_append, Contents.onto]
    dsimp only at shorterDirty ⊢
    omega
  · rw [List.append_assoc]
    refine (decodeBitmap_reads formedDirty lenDirty sized _).bind ?_
    exact (decodeBitmap_reads formedReadable lenReadable sized _).bind reads.map

end TrackedRecord.Wire.Payload
