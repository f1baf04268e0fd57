import TrackedRecord.Proofs.Wire.Number

/-!
# Reading scalars back

Scalars and texts are read back from what was written, and what was read is never written longer.
-/

namespace TrackedRecord.Wire.Decoder

theorem boolean_reads (b : Bool) : Reads boolean (encodeBoolean b) b := by
  unfold boolean encodeBoolean
  refine Reads.position fun start => (byte_reads _).bind_nil ?_
  cases b <;> exact Reads.pure _

theorem boolean_ok {c c' : Cursor} {b : Bool} (h : boolean c = .ok b c') :
    (encodeBoolean b).length + c'.rest.length ≤ c.rest.length := by
  unfold boolean at h
  rw [position_bind] at h
  obtain ⟨read, c₁, first, h⟩ := bind_ok h
  have taken := (byte_ok first).1
  have same : c' = c₁ := by
    split at h
    · exact (pure_ok h).2
    · split at h
      · exact (pure_ok h).2
      · exact (throw_ok h).elim
  rw [taken, same, encodeBoolean, List.length_singleton, List.length_cons]
  omega

/-! ### Numbers of fixed width -/

theorem int32_reads (n : Int32) : Reads int32 (encodeInt32 n) n := by
  refine (fixedWidth_reads (n.toBitVec.isLt)).bind_nil ?_
  rw [BitVec.ofNat_toNat, BitVec.setWidth_eq]
  exact Reads.pure n

theorem int64_reads (n : Int64) : Reads int64 (encodeInt64 n) n := by
  refine (fixedWidth_reads (n.toBitVec.isLt)).bind_nil ?_
  rw [BitVec.ofNat_toNat, BitVec.setWidth_eq]
  exact Reads.pure n

theorem float32_reads (bits : UInt32) : Reads float32 (encodeFloat32 bits) bits := by
  refine (fixedWidth_reads bits.toNat_lt).bind_nil ?_
  rw [UInt32.ofNat_toNat]
  exact Reads.pure bits

theorem float64_reads (bits : UInt64) : Reads float64 (encodeFloat64 bits) bits := by
  refine (fixedWidth_reads bits.toNat_lt).bind_nil ?_
  rw [UInt64.ofNat_toNat]
  exact Reads.pure bits

theorem fixedWidth_map_ok {α : Type} {width : Nat} {f : Nat → α} {c c' : Cursor} {a : α}
    (h : (do let bits ← fixedWidth width; return f bits) c = .ok a c') :
    width + c'.rest.length = c.rest.length := by
  obtain ⟨bits, c₁, read, h⟩ := bind_ok h
  obtain ⟨_, rfl⟩ := pure_ok h
  exact fixedWidth_ok read

theorem int32_ok {c c' : Cursor} {n : Int32} (h : int32 c = .ok n c') :
    (encodeInt32 n).length + c'.rest.length ≤ c.rest.length :=
  Nat.le_of_eq (by rw [encodeInt32, littleEndian_length, fixedWidth_map_ok h])

theorem int64_ok {c c' : Cursor} {n : Int64} (h : int64 c = .ok n c') :
    (encodeInt64 n).length + c'.rest.length ≤ c.rest.length :=
  Nat.le_of_eq (by rw [encodeInt64, littleEndian_length, fixedWidth_map_ok h])

theorem float32_ok {c c' : Cursor} {bits : UInt32} (h : float32 c = .ok bits c') :
    (encodeFloat32 bits).length + c'.rest.length ≤ c.rest.length :=
  Nat.le_of_eq (by rw [encodeFloat32, littleEndian_length, fixedWidth_map_ok h])

theorem float64_ok {c c' : Cursor} {bits : UInt64} (h : float64 c = .ok bits c') :
    (encodeFloat64 bits).length + c'.rest.length ≤ c.rest.length :=
  Nat.le_of_eq (by rw [encodeFloat64, littleEndian_length, fixedWidth_map_ok h])

/-! ### Bytes and texts -/

variable {settings : Settings}

theorem byteString_reads {bytes : List UInt8} (small : bytes.length < wordBound)
    (allowed : bytes.length ≤ settings.maxBytes) :
    Reads (byteString settings) (encodeByteString bytes) bytes := by
  unfold byteString encodeByteString
  refine Reads.position fun start => (varint_reads small).bind ?_
  dsimp only
  rw [if_neg (by omega)]
  exact exact_reads rfl

theorem byteString_ok {c c' : Cursor} {bytes : List UInt8} (h : byteString settings c = .ok bytes c') :
    bytes.length < wordBound ∧ bytes.length ≤ settings.maxBytes ∧
      (encodeByteString bytes).length + c'.rest.length ≤ c.rest.length := by
  unfold byteString at h
  rw [position_bind] at h
  obtain ⟨length, c₁, number, h⟩ := bind_ok h
  dsimp only at h
  split at h
  · exact (throw_ok h).elim
  · obtain ⟨small, shorter⟩ := varint_ok number
    obtain ⟨front, rfl, _⟩ := exact_ok h
    rw [front, List.length_append] at shorter
    rw [encodeByteString, List.length_append]
    exact ⟨small, by omega, by omega⟩

theorem text_reads {s : String} (small : (Utf8.encode s).length < wordBound)
    (allowed : (Utf8.encode s).length ≤ settings.maxBytes) : Reads (text settings) (encodeText s) s := by
  unfold text encodeText
  refine Reads.position fun start => (byteString_reads small allowed).bind_nil ?_
  rw [Utf8.decode?_encode]
  exact Reads.pure s

theorem text_ok {c c' : Cursor} {s : String} (h : text settings c = .ok s c') :
    (Utf8.encode s).length ≤ settings.maxBytes ∧ (encodeText s).length + c'.rest.length ≤ c.rest.length := by
  unfold text at h
  rw [position_bind] at h
  obtain ⟨bytes, c₁, read, h⟩ := bind_ok h
  cases spelled : Utf8.decode? bytes with
  | none =>
    rw [spelled] at h
    exact (throw_ok h).elim
  | some found =>
    rw [spelled] at h
    obtain ⟨rfl, rfl⟩ := pure_ok h
    obtain ⟨_, allowed, shorter⟩ := byteString_ok read
    rw [encodeText, Utf8.encode_of_decode? spelled]
    exact ⟨allowed, shorter⟩

end TrackedRecord.Wire.Decoder
