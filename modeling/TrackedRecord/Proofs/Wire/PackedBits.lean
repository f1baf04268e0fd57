import Mathlib.Data.List.GetD
import TrackedRecord.Proofs.FieldBits
import TrackedRecord.Proofs.Wire.Number
import TrackedRecord.Wire.PackedBits

/-!
# Packed bits and bit sets

A well-formed bit set is read back from its packed bits, and packed bits are read as a well-formed bit
set of the length that was asked for.
-/

namespace TrackedRecord.Wire

/-! ### Single bytes -/

/-- The sum of the powers of two at the set bits among the first `n`. -/
theorem foldl_pow (bit : Nat → Bool) (n : Nat) :
    let sum := (List.range n).foldl (fun sum j => if bit j then sum + Nat.pow 2 j else sum) 0
    sum < Nat.pow 2 n ∧ ∀ i, sum.testBit i = (decide (i < n) && bit i) := by
  induction n with
  | zero => simp
  | succ n ih =>
    obtain ⟨small, bits⟩ := ih
    rw [List.range_succ, List.foldl_append, List.foldl_cons, List.foldl_nil]
    generalize (List.range n).foldl (fun sum j => if bit j then sum + Nat.pow 2 j else sum) 0
      = sum at small bits
    have double : Nat.pow 2 (n + 1) = Nat.pow 2 n + Nat.pow 2 n := Nat.two_pow_succ n
    dsimp only
    split
    · rename_i isSet
      refine ⟨by omega, ?_⟩
      intro i
      rw [Nat.add_comm]
      rcases Nat.lt_trichotomy i n with less | rfl | more
      · rw [Nat.pow_eq, Nat.testBit_two_pow_add_gt less, bits i]
        simp [less, Nat.lt_succ_of_lt less]
      · rw [Nat.pow_eq, Nat.testBit_two_pow_add_eq, bits i]
        simp [isSet]
      · have whole : Nat.pow 2 n + sum < 2 ^ i :=
          Nat.lt_of_lt_of_le (show _ < Nat.pow 2 (n + 1) by omega) (Nat.pow_le_pow_right (by decide) more)
        rw [Nat.testBit_lt_two_pow whole]
        simp [show ¬i < n + 1 by omega]
    · rename_i isClear
      refine ⟨by omega, ?_⟩
      intro i
      rw [bits i]
      by_cases last : i = n
      · simp [last, isClear]
      · simp [show i < n + 1 ↔ i < n by omega]

theorem unpackByte_packByte (bit : Nat → Bool) : unpackByte (packByte bit) = (List.range 8).map bit := by
  obtain ⟨small, bits⟩ := foldl_pow bit 8
  unfold unpackByte packByte
  apply List.map_congr_left
  intro j member
  rw [UInt8.toNat_ofNat_of_lt' small, bits j]
  simp [List.mem_range.mp member]

theorem unpackByte_length (b : UInt8) : (unpackByte b).length = 8 := rfl

/-! ### Whole sets -/

theorem flatMap_range (f : Nat → Bool) (n : Nat) :
    ((List.range n).flatMap fun k => (List.range 8).map fun j => f (8 * k + j)) =
      (List.range (8 * n)).map f := by
  induction n with
  | zero => rfl
  | succ n ih =>
    rw [List.range_succ (n := n), List.flatMap_append, ih, Nat.mul_succ, List.range_add, List.map_append,
      List.map_map]
    simp

/-- The packed bits of a set, without their number. -/
def packedBytes (bits : FieldBits) : List UInt8 :=
  (List.range (packedLength bits.len)).map fun k => packByte fun j => bits.get (8 * k + j)

theorem packedBytes_unpacked (bits : FieldBits) :
    (packedBytes bits).flatMap unpackByte = (List.range (8 * packedLength bits.len)).map bits.get := by
  rw [packedBytes, List.flatMap_map]
  simp only [unpackByte_packByte]
  exact flatMap_range bits.get _

theorem packedBytes_length (bits : FieldBits) : (packedBytes bits).length = packedLength bits.len := by
  simp [packedBytes]

theorem encodeBits_length_le (bits : FieldBits) : (encodeBits bits).length ≤ 10 + packedLength bits.len := by
  rw [show encodeBits bits = Varint.ofNat bits.len ++ packedBytes bits from rfl, List.length_append,
    packedBytes_length]
  exact Nat.add_le_add_right (Varint.ofNat_length_le _) _

theorem flatMap_unpackByte_length (bytes : List UInt8) :
    (bytes.flatMap unpackByte).length = 8 * bytes.length := by
  induction bytes with
  | nil => rfl
  | cons b bytes ih =>
    rw [List.flatMap_cons, List.length_append, ih, unpackByte_length, List.length_cons]
    omega

/-! ### Bits in their places -/

/-- Bit `i` of packed bytes: bit `i % 8` of byte `i / 8`, counted from the lowest. -/
def packedBit (bytes : List UInt8) (i : Nat) : Bool := (bytes.getD (i / 8) 0).toNat.testBit (i % 8)

theorem getD_unpacked (bytes : List UInt8) (i : Nat) :
    (bytes.flatMap unpackByte).getD i false = packedBit bytes i := by
  induction bytes generalizing i with
  | nil => simp [packedBit]
  | cons b rest ih =>
    rw [List.flatMap_cons, packedBit]
    by_cases first : i < 8
    · rw [List.getD_append _ _ _ _ (by rwa [unpackByte_length]), Nat.div_eq_of_lt first, Nat.mod_eq_of_lt first,
        List.getD_cons_zero, List.getD_eq_getElem _ _ (by rwa [unpackByte_length])]
      simp [unpackByte]
    · obtain ⟨j, rfl⟩ := Nat.exists_eq_add_of_le (Nat.not_lt.mp first)
      rw [List.getD_append_right _ _ _ _ (by rw [unpackByte_length]; omega), unpackByte_length,
        Nat.add_sub_cancel_left, ih, packedBit, show (8 + j) / 8 = j / 8 + 1 by omega,
        show (8 + j) % 8 = j % 8 by omega, List.getD_cons_succ]

theorem packedBit_packedBytes (bits : FieldBits) (i : Nat) : packedBit (packedBytes bits) i = bits.get i := by
  rw [← getD_unpacked, packedBytes_unpacked, List.getD_eq_getElem?_getD, List.getElem?_map]
  by_cases inside : i < 8 * packedLength bits.len
  · rw [List.getElem?_range inside]
    rfl
  · have outside : bits.len ≤ i := by
      unfold packedLength at inside
      omega
    rw [List.getElem?_eq_none (by simpa using inside), FieldBits.get_of_le outside]
    rfl

/-- The set of the first `n` packed bits. -/
def unpacked (n : Nat) (packed : List UInt8) : FieldBits :=
  FieldBits.ofBools ((List.range n).map (packedBit packed))

theorem unpacked_len (n : Nat) (packed : List UInt8) : (unpacked n packed).len = n := by
  simp [unpacked]

theorem any_drop_eq_false_iff {bools : List Bool} {n : Nat} :
    (bools.drop n).any id = false ↔ ∀ i, n ≤ i → bools.getD i false = false := by
  rw [List.any_eq_false]
  constructor
  · intro each i beyond
    by_cases inside : i < bools.length
    · have member : bools[i] ∈ bools.drop n := by
        refine List.mem_iff_getElem.mpr ⟨i - n, by simp; omega, ?_⟩
        rw [List.getElem_drop]
        congr 1
        omega
      rw [List.getD_eq_getElem _ _ inside]
      exact Bool.eq_false_iff.mpr (each _ member)
    · exact List.getD_eq_default _ _ (Nat.not_lt.mp inside)
  · intro each bit member isSet
    obtain ⟨k, inside, rfl⟩ := List.mem_iff_getElem.mp member
    rw [List.length_drop] at inside
    have clear := each (n + k) (Nat.le_add_right n k)
    rw [List.getD_eq_getElem _ _ (by omega)] at clear
    rw [List.getElem_drop, id_eq, clear] at isSet
    cases isSet

theorem take_unpacked {n : Nat} {packed : List UInt8} (length : packed.length = packedLength n) :
    (packed.flatMap unpackByte).take n = (List.range n).map (packedBit packed) := by
  have room : n ≤ (packed.flatMap unpackByte).length := by
    rw [flatMap_unpackByte_length, length, packedLength]
    omega
  apply List.ext_getElem (by rw [List.length_take_of_le room, List.length_map, List.length_range])
  intro i inside _
  rw [List.getElem_take, List.getElem_map, List.getElem_range, ← getD_unpacked, List.getD_eq_getElem]

theorem unpacked_packedBytes {bits : FieldBits} (formed : bits.WellFormed) :
    unpacked bits.len (packedBytes bits) = bits := by
  rw [unpacked, funext (packedBit_packedBytes bits)]
  exact FieldBits.ofBools_toBools formed

namespace Decoder

theorem packedBits_reads {n : Nat} {packed : List UInt8} (length : packed.length = packedLength n)
    (padding : ∀ i, n ≤ i → packedBit packed i = false) : Reads (packedBits n) packed (unpacked n packed) := by
  unfold packedBits
  refine Reads.position fun start => (exact_reads length).bind_nil ?_
  have clear : ((packed.flatMap unpackByte).drop n).any id = false :=
    any_drop_eq_false_iff.mpr fun i beyond => (getD_unpacked packed i).trans (padding i beyond)
  dsimp only
  rw [clear, take_unpacked length]
  exact Reads.pure _

theorem packedBits_ok {n : Nat} {c c' : Cursor} {bits : FieldBits} (h : packedBits n c = .ok bits c') :
    ∃ packed, packed.length = packedLength n ∧ (∀ i, n ≤ i → packedBit packed i = false) ∧
      bits = unpacked n packed ∧ c.rest = packed ++ c'.rest ∧ c'.pos = c.pos + packed.length := by
  unfold packedBits at h
  rw [position_bind] at h
  obtain ⟨packed, c₁, taken, h⟩ := bind_ok h
  obtain ⟨front, length, moved⟩ := exact_ok taken
  dsimp only at h
  split at h
  · exact (throw_ok h).elim
  · rename_i clear
    obtain ⟨rfl, rfl⟩ := pure_ok h
    rw [Bool.not_eq_true, any_drop_eq_false_iff] at clear
    refine ⟨packed, length, fun i beyond => (getD_unpacked packed i).symm.trans (clear i beyond), ?_, front,
      length ▸ moved⟩
    rw [take_unpacked length]
    rfl

theorem packedBytes_reads {bits : FieldBits} (formed : bits.WellFormed) :
    Reads (packedBits bits.len) (packedBytes bits) bits := by
  have read := packedBits_reads (packedBytes_length bits) fun i beyond =>
    (packedBit_packedBytes bits i).trans (FieldBits.get_of_le beyond)
  rwa [unpacked_packedBytes formed] at read

theorem packedBits_formed {len : Nat} {c c' : Cursor} {bits : FieldBits} (h : packedBits len c = .ok bits c') :
    bits.WellFormed ∧ bits.len = len ∧ packedLength len + c'.rest.length = c.rest.length := by
  obtain ⟨packed, length, _, rfl, front, _⟩ := packedBits_ok h
  exact ⟨FieldBits.ofBools_wellFormed _, unpacked_len len packed, by rw [front, List.length_append, length]⟩

end Decoder

end TrackedRecord.Wire
