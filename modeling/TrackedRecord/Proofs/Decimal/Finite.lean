import TrackedRecord.Proofs.Decimal.Widening

/-!
# Finite numbers

Which patterns stand for finite numbers. A whole number of 64 bits is rounded to a finite double, and so is every
decimal number that is not refused.
-/

namespace TrackedRecord.Decimal

/-- The pattern of a finite number. -/
def Format.IsFinite (f : Format) (bits : Nat) : Prop :=
  ∃ negative significand exponent, f.unpack bits = .finite negative significand exponent

namespace Format

theorem isFinite_iff {f : Format} {bits : Nat} : f.IsFinite bits ↔ bits % f.signBit < f.infinity := by
  unfold IsFinite unpack
  dsimp only
  split
  · exact ⟨nofun, fun below => by omega⟩
  · split
    · exact ⟨nofun, fun below => by omega⟩
    · refine ⟨fun _ => by omega, fun _ => ?_⟩
      split
      · exact ⟨_, _, _, rfl⟩
      · exact ⟨_, _, _, rfl⟩

theorem divideToEven_le (num den : Nat) : divideToEven num den ≤ num / den + 1 := by
  unfold divideToEven
  dsimp only
  split
  · omega
  · split <;> omega

/-- A whole number of 64 bits is far from the end of the doubles. -/
theorem double_roundMagnitude_lt {n : Nat} (small : n ≤ 2 ^ 64) :
    double.roundMagnitude n 1 < double.infinity := by
  rcases Nat.eq_zero_or_pos n with rfl | positive
  · decide
  unfold roundMagnitude
  have exponent := binaryExponent_scale positive 0
  simp only [Int.toNat_zero, Nat.pow_zero, Nat.mul_one, Int.neg_zero, Int.add_zero] at exponent
  have lead : n.log2 < 65 := (Nat.log2_lt (by omega)).mpr (by omega)
  have above : n < 2 ^ (n.log2 + 1) := Nat.lt_log2_self
  have unit : max ((n.log2 : Int) - (double.fractionBits : Nat)) double.leastExponent = (n.log2 : Int) - 52 := by
    change max ((n.log2 : Int) - 52) (-1074) = _
    omega
  rw [if_neg (by omega), exponent]
  dsimp only
  rw [scale_eq, unit, Nat.one_mul]
  dsimp only
  have quotient : n * 2 ^ (-((n.log2 : Int) - 52)).toNat / 2 ^ (- -((n.log2 : Int) - 52)).toNat < 2 ^ 53 := by
    rw [Nat.div_lt_iff_lt_mul (Nat.two_pow_pos _), ← Nat.pow_add]
    refine Nat.lt_of_lt_of_le (Nat.mul_lt_mul_of_pos_right above (Nat.two_pow_pos _)) ?_
    rw [← Nat.pow_add]
    exact Nat.pow_le_pow_right (by omega) (by omega)
  have rounded := divideToEven_le (n * 2 ^ (-((n.log2 : Int) - 52)).toNat) (2 ^ (- -((n.log2 : Int) - 52)).toNat)
  have steps : ((n.log2 : Int) - 52 - double.leastExponent).toNat ≤ 1086 := by
    change ((n.log2 : Int) - 52 - (-1074)).toNat ≤ 1086
    omega
  refine Nat.lt_of_le_of_lt (Nat.min_le_left _ _) ?_
  change _ * 2 ^ 52 + _ < 2047 * 2 ^ 52
  omega

theorem double_round_finite (negative : Bool) {n : Nat} (small : n ≤ 2 ^ 64) :
    double.round negative n 1 < 2 ^ 64 ∧ double.IsFinite (double.round negative n 1) := by
  have below := double_roundMagnitude_lt small
  have bound := double.infinity_lt
  have sign : double.signBit = 2 ^ 63 := rfl
  unfold round
  constructor
  · split <;> omega
  · rw [isFinite_iff]
    cases negative with
    | true =>
      rw [if_pos rfl, Nat.add_mod_right, Nat.mod_eq_of_lt (by omega)]
      exact below
    | false =>
      rw [if_neg Bool.false_ne_true, Nat.add_zero, Nat.mod_eq_of_lt (by omega)]
      exact below

/-- No more than infinity and a sign. -/
theorem double_round_lt (negative : Bool) (num den : Nat) : double.round negative num den < 2 ^ 64 := by
  have bound := double.infinity_lt
  have sign : double.signBit = 2 ^ 63 := rfl
  have most : double.roundMagnitude num den ≤ double.infinity := by
    unfold roundMagnitude
    split
    · exact Nat.zero_le _
    · exact Nat.min_le_right _ _
  unfold round
  split <;> omega

end Format

/-- A decimal number is refused or rounded to a finite one. -/
theorem ofDecimal?_finite {negative : Bool} {digits : Nat} {shift : Int} {bits : Nat}
    (read : ofDecimal? negative digits shift = some bits) : bits < 2 ^ 64 ∧ double.IsFinite bits := by
  have zero := Format.double_round_finite negative (n := 0) (by omega)
  unfold ofDecimal? at read
  dsimp only at read
  split at read
  · cases read
    exact zero
  · split at read
    · cases read
    · split at read
      · cases read
        exact zero
      · have small : (if 0 ≤ shift then double.round negative (digits * Nat.pow 10 shift.toNat) 1
            else double.round negative digits (Nat.pow 10 (-shift).toNat)) < 2 ^ 64 := by
          split <;> exact Format.double_round_lt ..
        generalize (if 0 ≤ shift then double.round negative (digits * Nat.pow 10 shift.toNat) 1
          else double.round negative digits (Nat.pow 10 (-shift).toNat)) = rounded at read small
        split at read
        · cases read
        · rename_i below
          cases read
          exact ⟨small, Format.isFinite_iff.mpr (Nat.not_le.mp below)⟩

end TrackedRecord.Decimal
