import Mathlib.Logic.Function.Basic
import TrackedRecord.Proofs.Wire.Number
import TrackedRecord.Wire.Crc32

/-!
# Checksums

One shift of a remainder is linear and can be undone. So a remainder can be told from the one after any further
bytes, four bytes in a row can be told from the remainder behind them (`foldl_step_ne`), and bytes end with
their checksum exactly if they leave one fixed remainder (`checksum_eq_iff`).
-/

namespace TrackedRecord.Wire.Crc32

/-! ### Single bits -/

/-- What is added to a remainder for the bit that leaves it. -/
def feedback (bit : Bool) : BitVec 32 := if bit then polynomial else 0

theorem feedback_xor (a b : Bool) : feedback (a ^^ b) = feedback a ^^^ feedback b := by
  cases a <;> cases b <;> decide

theorem shift_eq (c : BitVec 32) : shift c = c >>> 1 ^^^ feedback (c.getLsbD 0) := by
  unfold shift feedback
  split <;> simp

theorem shift_xor (a b : BitVec 32) : shift (a ^^^ b) = shift a ^^^ shift b := by
  simp only [shift_eq, BitVec.getLsbD_xor, BitVec.ushiftRight_xor_distrib, feedback_xor]
  ac_rfl

/-- The bit that leaves comes back as the highest one, since the polynomial has that bit. -/
theorem shift_top (c : BitVec 32) : (shift c).getLsbD 31 = c.getLsbD 0 := by
  rw [shift_eq]
  cases c.getLsbD 0 <;> simp [feedback, polynomial]

theorem shift_injective : Function.Injective shift := by
  intro a b same
  have low : a.getLsbD 0 = b.getLsbD 0 := by rw [← shift_top, same, shift_top]
  have high : a >>> 1 = b >>> 1 := by
    rw [shift_eq, shift_eq, low] at same
    simpa using same
  apply BitVec.eq_of_getLsbD_eq
  intro i _
  cases i with
  | zero => exact low
  | succ i =>
    have bit := congrArg (BitVec.getLsbD · i) high
    simpa [Nat.add_comm] using bit

theorem shift_double {n : Nat} (small : n * 2 < 0x100000000) :
    shift (BitVec.ofNat 32 (n * 2)) = BitVec.ofNat 32 n := by
  have low : (BitVec.ofNat 32 (n * 2)).getLsbD 0 = false := by
    rw [BitVec.getLsbD_ofNat]
    simp
  rw [shift_eq, low]
  apply BitVec.eq_of_toNat_eq
  simp [feedback, Nat.shiftRight_eq_div_pow]
  omega

/-! ### Several bits -/

theorem shifts_xor (k : Nat) (a b : BitVec 32) : shifts k (a ^^^ b) = shifts k a ^^^ shifts k b := by
  induction k generalizing a b with
  | zero => rfl
  | succ k ih => rw [shifts, shifts, shifts, shift_xor, ih]

theorem shifts_add (j k : Nat) (c : BitVec 32) : shifts (j + k) c = shifts k (shifts j c) := by
  induction j generalizing c with
  | zero => rw [Nat.zero_add, shifts]
  | succ j ih => rw [Nat.succ_add, shifts, shifts, ih]

theorem shifts_injective (k : Nat) : Function.Injective (shifts k) := by
  induction k with
  | zero => exact Function.injective_id
  | succ k ih => exact ih.comp shift_injective

/-- Zeros below a number leave and change nothing. -/
theorem shifts_zeros {n : Nat} (k : Nat) (small : n * Nat.pow 2 k < 0x100000000) :
    shifts k (BitVec.ofNat 32 (n * Nat.pow 2 k)) = BitVec.ofNat 32 n := by
  induction k with
  | zero => simp [shifts]
  | succ k ih =>
    simp only [Nat.pow_eq, Nat.pow_succ, ← Nat.mul_assoc] at small ih ⊢
    rw [shifts, shift_double small, ih (by omega)]

/-! ### Bytes -/

/-- A byte takes the eight bits below a number. -/
theorem ofNat_byte (b : UInt8) (n : Nat) :
    BitVec.ofNat 32 (b.toNat + 0x100 * n) =
      b.toBitVec.setWidth 32 ^^^ BitVec.ofNat 32 (n * Nat.pow 2 8) := by
  apply BitVec.eq_of_getLsbD_eq
  intro i inside
  have swap : b.toNat + 0x100 * n = 2 ^ 8 * n + b.toNat := Nat.add_comm _ _
  have bits := Nat.testBit_two_pow_mul_add n (i := 8) b.toNat_lt i
  rw [BitVec.getLsbD_xor, BitVec.getLsbD_setWidth, BitVec.getLsbD_ofNat, BitVec.getLsbD_ofNat, swap, bits,
    Nat.pow_eq, Nat.testBit_mul_two_pow]
  by_cases low : i < 8
  · have below : ¬8 ≤ i := by omega
    simp [low, below, BitVec.getLsbD]
  · have above : 8 ≤ i := by omega
    simp [low, above]

theorem step_injective (b : UInt8) : Function.Injective (step · b) := by
  intro c d same
  exact (BitVec.xor_left_inj _).mp (shifts_injective 8 same)

theorem foldl_step_injective (bytes : List UInt8) : Function.Injective (bytes.foldl step) := by
  induction bytes with
  | nil => exact Function.injective_id
  | cons b rest ih => exact ih.comp (step_injective b)

/-- Up to four bytes are taken in at once. -/
theorem foldl_step {bytes : List UInt8} (few : bytes.length ≤ 4) (c : BitVec 32) :
    bytes.foldl step c = shifts (8 * bytes.length) (c ^^^ BitVec.ofNat 32 (ofLittleEndian bytes)) := by
  induction bytes generalizing c with
  | nil => simp [ofLittleEndian, shifts]
  | cons b rest ih =>
    rw [List.length_cons] at few
    have small : ofLittleEndian rest * Nat.pow 2 8 < 0x100000000 := by
      have three : Nat.pow 0x100 rest.length ≤ Nat.pow 0x100 3 := Nat.pow_le_pow_right (by decide) (by omega)
      have bound := Nat.lt_of_lt_of_le (ofLittleEndian_lt rest) three
      simp only [Nat.pow_eq] at bound ⊢
      omega
    rw [List.foldl_cons, ih (by omega), step, List.length_cons, Nat.mul_succ, Nat.add_comm (8 * _), shifts_add,
      ofLittleEndian, ofNat_byte, ← BitVec.xor_assoc, shifts_xor 8 (c ^^^ _), shifts_zeros 8 small]

/-- Up to four bytes can be told from the remainder that they leave. -/
theorem foldl_step_ne {bytes other : List UInt8} (few : bytes.length ≤ 4) (length : other.length = bytes.length)
    (differs : other ≠ bytes) (c : BitVec 32) : other.foldl step c ≠ bytes.foldl step c := by
  intro same
  rw [foldl_step (length ▸ few), foldl_step few, length] at same
  have words : BitVec.ofNat 32 (ofLittleEndian other) = BitVec.ofNat 32 (ofLittleEndian bytes) :=
    (BitVec.xor_right_inj _).mp (shifts_injective _ same)
  have numbers : ofLittleEndian other = ofLittleEndian bytes := by
    have small {bytes : List UInt8} (few : bytes.length ≤ 4) : ofLittleEndian bytes < 2 ^ 32 :=
      Nat.lt_of_lt_of_le (ofLittleEndian_lt bytes) (Nat.pow_le_pow_right (by decide) few)
    have values := congrArg BitVec.toNat words
    rwa [BitVec.toNat_ofNat, BitVec.toNat_ofNat, Nat.mod_eq_of_lt (small (length ▸ few)),
      Nat.mod_eq_of_lt (small few)] at values
  apply differs
  rw [← littleEndian_ofLittleEndian other, numbers, length, littleEndian_ofLittleEndian]

/-! ### Checksums -/

/-- What any bytes leave together with their checksum. -/
def residue : BitVec 32 := shifts 32 (BitVec.allOnes 32)

theorem checksum_eq_iff {bytes check : List UInt8} (four : check.length = 4) :
    checksum bytes = BitVec.ofNat 32 (ofLittleEndian check) ↔
      (bytes ++ check).foldl step (BitVec.allOnes 32) = residue := by
  rw [checksum, List.foldl_append, foldl_step (Nat.le_of_eq four), four, residue,
    (shifts_injective 32).eq_iff]
  generalize bytes.foldl step (BitVec.allOnes 32) = c
  rw [← BitVec.xor_allOnes]
  constructor
  all_goals
    intro same
    rw [← same, ← BitVec.xor_assoc, BitVec.xor_self, BitVec.zero_xor]

end TrackedRecord.Wire.Crc32
