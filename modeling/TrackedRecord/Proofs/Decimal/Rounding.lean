import Mathlib.Algebra.Order.Field.Power
import Mathlib.Algebra.Order.Field.Rat
import Mathlib.Tactic.FieldSimp
import Mathlib.Tactic.Linarith
import Mathlib.Tactic.Positivity
import Mathlib.Tactic.Ring
import TrackedRecord.Proofs.Decimal.Widening

/-!
# Rounding to the nearest number

A fraction that lies nearer to a number than to its neighbours is rounded to that number, and so is one halfway to
a neighbour if the significand is even.
-/

namespace TrackedRecord.Decimal

namespace Format

variable {f : Format} {num den m : Nat} {e shift : Int}

/-! ### Fractions -/

theorem scale_den_pos (positive : 0 < den) : 0 < (scale num den shift).2 := by
  rw [scale_eq]
  exact Nat.mul_pos positive (Nat.two_pow_pos _)

theorem scale_value (num den : Nat) (shift : Int) :
    ((scale num den shift).1 : ℚ) / (scale num den shift).2 = num / den * 2 ^ shift := by
  rw [scale_eq]
  obtain ⟨n, rfl | rfl⟩ := shift.eq_nat_or_neg
  · simp
    ring
  · simp
    field_simp

theorem pow_log2_le (positive : 0 < num) : (2 : ℚ) ^ (num.log2 : Int) ≤ num := by
  rw [zpow_natCast]
  exact_mod_cast Nat.log2_self_le (by omega)

theorem lt_pow_log2 (num : Nat) : (num : ℚ) < 2 ^ (num.log2 + 1 : Int) := by
  exact_mod_cast Nat.lt_log2_self

theorem binaryExponent_spec (positive : 0 < num) (divisor : 0 < den) :
    (2 : ℚ) ^ binaryExponent num den ≤ num / den ∧ (num / den : ℚ) < 2 ^ (binaryExponent num den + 1) := by
  have den_pos : (0 : ℚ) < den := by exact_mod_cast divisor
  have low : (2 : ℚ) ^ ((num.log2 : Int) - den.log2 - 1) < num / den := by
    rw [lt_div_iff₀ den_pos]
    calc (2 : ℚ) ^ ((num.log2 : Int) - den.log2 - 1) * den
        < 2 ^ ((num.log2 : Int) - den.log2 - 1) * 2 ^ (den.log2 + 1 : Int) := by
          gcongr
          exact lt_pow_log2 den
      _ = 2 ^ (num.log2 : Int) := by
          rw [← zpow_add₀ two_ne_zero]
          congr 1
          omega
      _ ≤ num := pow_log2_le positive
  have high : (num / den : ℚ) < 2 ^ ((num.log2 : Int) - den.log2 + 1) := by
    rw [div_lt_iff₀ den_pos]
    calc (num : ℚ) < 2 ^ (num.log2 + 1 : Int) := lt_pow_log2 num
      _ = 2 ^ ((num.log2 : Int) - den.log2 + 1) * 2 ^ (den.log2 : Int) := by
          rw [← zpow_add₀ two_ne_zero]
          congr 1
          omega
      _ ≤ 2 ^ ((num.log2 : Int) - den.log2 + 1) * den := by
          gcongr
          exact pow_log2_le divisor
  unfold binaryExponent
  dsimp only
  generalize (num.log2 : Int) - den.log2 = guess at low high ⊢
  have value := scale_value num den (-guess)
  have scaled_pos : (0 : ℚ) < (scale num den (-guess)).2 := by exact_mod_cast scale_den_pos divisor
  have fits : (scale num den (-guess)).2 ≤ (scale num den (-guess)).1 ↔ (2 : ℚ) ^ guess ≤ num / den := by
    rw [← Nat.cast_le (α := ℚ), ← one_le_div scaled_pos, value, zpow_neg, ← div_eq_mul_inv,
      one_le_div (by positivity)]
  split
  · rename_i fit
    exact ⟨fits.mp fit, high⟩
  · rename_i unfit
    rw [Int.sub_add_cancel]
    exact ⟨low.le, not_le.mp (mt fits.mpr unfit)⟩

/-- The nearest whole number, an even one where two are as near. -/
theorem divideToEven_eq {n d k : Nat} (low : 2 * k * d ≤ 2 * n + d) (high : 2 * n ≤ 2 * k * d + d)
    (tie : k % 2 = 0 ∨ 2 * k * d < 2 * n + d ∧ 2 * n < 2 * k * d + d) (positive : 0 < d) : divideToEven n d = k := by
  have whole : d * (n / d) + n % d = n := Nat.div_add_mod n d
  have rest : n % d < d := Nat.mod_lt n positive
  unfold divideToEven
  dsimp only
  generalize n / d = q at whole ⊢
  generalize n % d = r at whole rest ⊢
  have q_le : q ≤ k := by
    by_contra above
    have step : (k + 1) * d ≤ q * d := Nat.mul_le_mul_right d (by omega)
    nlinarith
  have le_q : k ≤ q + 1 := by
    by_contra above
    have step : (q + 2) * d ≤ k * d := Nat.mul_le_mul_right d (by omega)
    nlinarith
  rcases Nat.lt_or_eq_of_le q_le with less | rfl
  · obtain rfl : k = q + 1 := by omega
    have up : d ≤ 2 * r := by nlinarith
    rw [if_neg (by omega)]
    split
    · rfl
    · have even : (q + 1) % 2 = 0 := tie.resolve_right fun strict => by nlinarith
      omega
  · have down : 2 * r ≤ d := by nlinarith
    split
    · rfl
    · rw [if_neg (by omega)]
      have even : q % 2 = 0 := tie.resolve_right fun strict => by nlinarith
      omega

/-! ### The surroundings of a number -/

/-- Four times the distance to the end of the surroundings below: below a power of two the neighbour is half as far. -/
def below (f : Format) (m : Nat) (e : Int) : Nat := if m = Nat.pow 2 f.fractionBits ∧ f.leastExponent < e then 1 else 2

/-- What lies nearer to `m * 2 ^ e` than to its neighbours, or halfway if `m` is even. -/
structure Near (f : Format) (m : Nat) (e : Int) (x : ℚ) : Prop where
  low : (4 * m - f.below m e) * 2 ^ e ≤ 4 * x
  high : 4 * x ≤ (4 * m + 2) * 2 ^ e
  tie : m % 2 = 0 ∨ (4 * m - f.below m e) * 2 ^ e < 4 * x ∧ 4 * x < (4 * m + 2) * 2 ^ e

/-- Rounding in units of which the number is a multiple. -/
theorem divideToEven_scale {k : Nat} (divisor : 0 < den) (low : ((2 * k - 1) * 2 ^ e : ℚ) ≤ 2 * (num / den))
    (high : (2 * (num / den) : ℚ) ≤ (2 * k + 1) * 2 ^ e)
    (tie : k % 2 = 0 ∨ ((2 * k - 1) * 2 ^ e : ℚ) < 2 * (num / den) ∧ (2 * (num / den) : ℚ) < (2 * k + 1) * 2 ^ e) :
    divideToEven (scale num den (-e)).1 (scale num den (-e)).2 = k := by
  have positive : 0 < (scale num den (-e)).2 := scale_den_pos divisor
  have value := scale_value num den (-e)
  generalize (scale num den (-e)).1 = n at value ⊢
  generalize (scale num den (-e)).2 = d at value positive ⊢
  have d_pos : (0 : ℚ) < d := by exact_mod_cast positive
  have unit : (0 : ℚ) < 2 ^ e := by positivity
  have same : (num / den : ℚ) = n / d * 2 ^ e := by
    rw [value, mul_assoc, ← zpow_add₀ two_ne_zero, neg_add_cancel, zpow_zero, mul_one]
  rw [same, ← mul_assoc] at low high tie
  rw [mul_le_mul_iff_left₀ unit, ← mul_div_assoc] at low high
  rw [mul_lt_mul_iff_left₀ unit, mul_lt_mul_iff_left₀ unit, ← mul_div_assoc] at tie
  rw [le_div_iff₀ d_pos] at low
  rw [div_le_iff₀ d_pos] at high
  rw [lt_div_iff₀ d_pos, div_lt_iff₀ d_pos] at tie
  refine divideToEven_eq ?_ ?_ (tie.imp_right fun strict => ⟨?_, ?_⟩) positive
  · exact_mod_cast (by linarith : (2 * k * d : ℚ) ≤ 2 * n + d)
  · exact_mod_cast (by linarith : (2 * n : ℚ) ≤ 2 * k * d + d)
  · exact_mod_cast (by linarith [strict.1] : (2 * k * d : ℚ) < 2 * n + d)
  · exact_mod_cast (by linarith [strict.2] : (2 * n : ℚ) < 2 * k * d + d)

theorem below_le (f : Format) (m : Nat) (e : Int) : (f.below m e : ℚ) ≤ 2 := by
  unfold below
  split <;> norm_num

theorem Near.half_le {x : ℚ} (near : f.Near m e x) (positive : 0 < m) : (2 : ℚ) ^ (e - 1) ≤ x := by
  have unit : (0 : ℚ) < 2 ^ e := by positivity
  have m_pos : (1 : ℚ) ≤ m := by exact_mod_cast positive
  rw [zpow_sub_one₀ two_ne_zero]
  nlinarith [near.low, f.below_le m e]

theorem Near.lt_pow {x : ℚ} (near : f.Near m e x) (holds : f.Holds m e) :
    x < 2 ^ (f.fractionBits + 1 + e : Int) := by
  have unit : (0 : ℚ) < 2 ^ e := by positivity
  have top : (m : ℚ) + 1 ≤ 2 ^ (f.fractionBits + 1 : Int) := by exact_mod_cast holds.small
  rw [zpow_add₀ two_ne_zero]
  nlinarith [near.high]

theorem Near.num_pos (near : f.Near m e (num / den)) (positive : 0 < m) : 0 < num := by
  apply Nat.pos_of_ne_zero
  rintro rfl
  have half := near.half_le positive
  rw [Nat.cast_zero, zero_div] at half
  exact absurd half (not_le.mpr (by positivity))

theorem binaryExponent_lt (present : 0 < num) (divisor : 0 < den) (less : (num / den : ℚ) < 2 ^ e) :
    binaryExponent num den < e :=
  (zpow_lt_zpow_iff_right₀ one_lt_two).mp ((binaryExponent_spec present divisor).1.trans_lt less)

theorem le_binaryExponent (present : 0 < num) (divisor : 0 < den) (least : (2 : ℚ) ^ e ≤ num / den) :
    e ≤ binaryExponent num den :=
  Int.lt_add_one_iff.mp
    ((zpow_lt_zpow_iff_right₀ one_lt_two).mp (least.trans_lt (binaryExponent_spec present divisor).2))

/-- A fraction is rounded in the unit of its own binade, and may come out as the same number in another unit. -/
theorem Holds.roundMagnitude_eq (holds : f.Holds m e) (present : 0 < num) {unit : Int} {k : Nat}
    (own : max (binaryExponent num den - f.fractionBits) f.leastExponent = unit)
    (whole : divideToEven (scale num den (-unit)).1 (scale num den (-unit)).2 = k)
    (same : f.pattern k unit = f.pattern m e) : f.roundMagnitude num den = f.pattern m e := by
  unfold roundMagnitude
  rw [if_neg present.ne']
  dsimp only
  rw [own, whole]
  exact (congrArg (min · f.infinity) same).trans (Nat.min_eq_left holds.finite.le)

theorem Holds.round_near_own (holds : f.Holds m e) (positive : 0 < m) (divisor : 0 < den)
    (near : f.Near m e (num / den)) (binade : (2 : ℚ) ^ (f.fractionBits + e) ≤ num / den ∨ e = f.leastExponent) :
    f.roundMagnitude num den = f.pattern m e := by
  have unit : (0 : ℚ) < 2 ^ e := by positivity
  have below_le := f.below_le m e
  have present := near.num_pos positive
  have under := binaryExponent_lt present divisor (near.lt_pow holds)
  have least := holds.least
  have own : max (binaryExponent num den - f.fractionBits) f.leastExponent = e := by
    rcases binade with reached | rfl
    · have := le_binaryExponent present divisor reached
      omega
    · omega
  refine holds.roundMagnitude_eq present own (divideToEven_scale divisor ?_ ?_ ?_) rfl
  · nlinarith [near.low]
  · nlinarith [near.high]
  · refine near.tie.imp_right fun strict => ⟨?_, ?_⟩
    · nlinarith [strict.1]
    · nlinarith [strict.2]

/-- Only below a power of two the surroundings reach into the binade below, where the unit is half as large. -/
theorem Holds.round_near_below (holds : f.Holds m e) (positive : 0 < m) (divisor : 0 < den)
    (near : f.Near m e (num / den)) (less : (num / den : ℚ) < 2 ^ (f.fractionBits + e))
    (above : f.leastExponent < e) : f.roundMagnitude num den = f.pattern m e := by
  have unit : (0 : ℚ) < 2 ^ e := by positivity
  have m_pos : (1 : ℚ) ≤ m := by exact_mod_cast positive
  have present := near.num_pos positive
  have power : (2 : ℚ) ^ (f.fractionBits + e) = 2 ^ f.fractionBits * 2 ^ e := by
    rw [zpow_add₀ two_ne_zero, zpow_natCast]
  rw [power] at less
  have least : m = 2 ^ f.fractionBits := by
    have m_le : (m : ℚ) ≤ 2 ^ f.fractionBits := by
      by_contra more
      have step : (2 : ℚ) ^ f.fractionBits + 1 ≤ m := by exact_mod_cast not_le.mp more
      nlinarith [near.low, f.below_le m e]
    exact le_antisymm (by exact_mod_cast m_le) (holds.normal above)
  have nearer : f.below m e = 1 := if_pos ⟨least, above⟩
  have low := near.low
  rw [nearer, Nat.cast_one] at low
  have half : (2 : ℚ) ^ (e - 1) = 2 ^ e / 2 := zpow_sub_one₀ two_ne_zero e
  have power_m : (2 : ℚ) ^ f.fractionBits = m := by exact_mod_cast least.symm
  rw [power_m] at power less
  have exponent : binaryExponent num den = f.fractionBits + e - 1 := by
    have under := binaryExponent_lt present divisor (less.trans_eq power.symm)
    have reached : (2 : ℚ) ^ (f.fractionBits + e - 1) ≤ num / den := by
      rw [zpow_sub_one₀ two_ne_zero, power]
      nlinarith
    have := le_binaryExponent present divisor reached
    omega
  have own : max (binaryExponent num den - f.fractionBits) f.leastExponent = e - 1 := by omega
  have whole : divideToEven (scale num den (-(e - 1))).1 (scale num den (-(e - 1))).2 = 2 * m := by
    refine divideToEven_scale divisor ?_ ?_ (.inl (by omega))
    · push_cast
      rw [half]
      nlinarith
    · push_cast
      rw [half]
      nlinarith
  refine holds.roundMagnitude_eq present own whole ?_
  rw [pattern, pattern, show (e - f.leastExponent).toNat = (e - 1 - f.leastExponent).toNat + 1 by omega, Nat.add_mul,
    ← least]
  omega

theorem Holds.round_near (holds : f.Holds m e) (positive : 0 < m) (divisor : 0 < den)
    (near : f.Near m e (num / den)) : f.roundMagnitude num den = f.pattern m e := by
  by_cases binade : (2 : ℚ) ^ (f.fractionBits + e) ≤ num / den ∨ e = f.leastExponent
  · exact holds.round_near_own positive divisor near binade
  · obtain ⟨less, normal⟩ := not_or.mp binade
    have least := holds.least
    exact holds.round_near_below positive divisor near (not_le.mp less) (by omega)

end Format

/-! ### Decimals -/

theorem two_pow_le (n : Nat) : (2 : ℚ) ^ (3 * n : Int) ≤ 10 ^ (n : Int) := by
  rw [zpow_mul, zpow_natCast, zpow_natCast]
  gcongr
  norm_num

theorem pow_leading_le {digits : Nat} (positive : 0 < digits) (shift : Int) :
    (10 : ℚ) ^ ((Nat.toDigits 10 digits).length + shift - 1) ≤ digits * 10 ^ shift := by
  have size : 10 ^ ((Nat.toDigits 10 digits).length - 1) ≤ digits := by
    rcases Nat.eq_zero_or_pos ((Nat.toDigits 10 digits).length - 1) with one | more
    · rw [one]
      exact positive
    · have short := (Nat.length_toDigits_le_iff (b := 10) (n := digits) (by decide) more).not
      exact Nat.not_lt.mp (short.mp (by omega))
  have present := Nat.length_toDigits_pos (b := 10) (n := digits)
  rw [show ((Nat.toDigits 10 digits).length + shift - 1 : Int) =
    ((Nat.toDigits 10 digits).length - 1 : Nat) + shift by omega, zpow_add₀ (by norm_num), zpow_natCast]
  gcongr
  exact_mod_cast size

theorem lt_pow_leading (digits : Nat) (shift : Int) :
    (digits * 10 ^ shift : ℚ) < 10 ^ ((Nat.toDigits 10 digits).length + shift : Int) := by
  have size := (Nat.length_toDigits_le_iff (b := 10) (n := digits) (by decide) Nat.length_toDigits_pos).mp le_rfl
  rw [zpow_add₀ (by norm_num), zpow_natCast]
  gcongr
  exact_mod_cast size

theorem Format.Holds.double_le {m : Nat} {e : Int} (holds : double.Holds m e) : e ≤ 971 := by
  have finite : (e + 1074).toNat * 2 ^ 52 + m < 2047 * 2 ^ 52 := holds.finite
  have normal : -1074 < e → 2 ^ 52 ≤ m := holds.normal
  omega

section

variable {m digits : Nat} {e shift : Int}

theorem Format.Near.digits_pos (near : double.Near m e (digits * 10 ^ shift)) (positive : 0 < m) : 0 < digits := by
  apply Nat.pos_of_ne_zero
  rintro rfl
  have half := near.half_le positive
  rw [Nat.cast_zero, zero_mul] at half
  exact absurd half (not_le.mpr (by positivity))

/-- A decimal that lies around a double is not refused for its size. -/
theorem Format.Near.leading (holds : double.Holds m e) (positive : 0 < m)
    (near : double.Near m e (digits * 10 ^ shift)) :
    (Nat.toDigits 10 digits).length + shift ≤ 400 ∧ -400 ≤ (Nat.toDigits 10 digits).length + shift := by
  have least : -1074 ≤ e := holds.least
  have greatest := holds.double_le
  have low := pow_leading_le (near.digits_pos positive) shift
  have high := lt_pow_leading digits shift
  generalize ((Nat.toDigits 10 digits).length : Int) + shift = leading at low high ⊢
  constructor
  · by_contra more
    have powers : (2 : ℚ) ^ (1200 : Int) < 2 ^ ((52 : Nat) + 1 + e : Int) :=
      calc (2 : ℚ) ^ (1200 : Int) ≤ 10 ^ (400 : Int) := two_pow_le 400
        _ ≤ 10 ^ (leading - 1) := zpow_le_zpow_right₀ (by norm_num) (by omega)
        _ ≤ digits * 10 ^ shift := low
        _ < _ := near.lt_pow holds
    have := (zpow_lt_zpow_iff_right₀ one_lt_two).mp powers
    omega
  · by_contra less
    have powers : (2 : ℚ) ^ (e - 1) < 2 ^ (-1200 : Int) :=
      calc (2 : ℚ) ^ (e - 1) ≤ digits * 10 ^ shift := near.half_le positive
        _ < 10 ^ leading := high
        _ ≤ 10 ^ (-400 : Int) := zpow_le_zpow_right₀ (by norm_num) (by omega)
        _ ≤ 2 ^ (-1200 : Int) := by
          rw [zpow_neg, zpow_neg]
          exact inv_anti₀ (by positivity) (two_pow_le 400)
    have := (zpow_lt_zpow_iff_right₀ one_lt_two).mp powers
    omega

/-- A decimal that lies around a double is read as its bits. -/
theorem ofDecimal?_near (holds : double.Holds m e) (positive : 0 < m)
    (near : double.Near m e (digits * 10 ^ shift)) (negative : Bool) :
    ofDecimal? negative digits shift = some (double.pattern m e + if negative then double.signBit else 0) := by
  have present := near.digits_pos positive
  obtain ⟨small, large⟩ := near.leading holds positive
  have rounded : (if 0 ≤ shift then double.round negative (digits * Nat.pow 10 shift.toNat) 1
      else double.round negative digits (Nat.pow 10 (-shift).toNat)) =
      double.pattern m e + if negative then double.signBit else 0 := by
    unfold Format.round
    split
    · rename_i upward
      obtain ⟨n, rfl⟩ := Int.eq_ofNat_of_zero_le upward
      rw [holds.round_near positive one_pos]
      simpa using near
    · rename_i downward
      obtain ⟨n, same⟩ := Int.eq_ofNat_of_zero_le (Int.le_of_lt (Int.neg_pos_of_neg (Int.not_le.mp downward)))
      obtain rfl : shift = -(n : Int) := by omega
      rw [neg_neg, Int.toNat_natCast, Nat.pow_eq, holds.round_near positive (Nat.pow_pos (by decide))]
      simpa [div_eq_mul_inv] using near
  unfold ofDecimal?
  dsimp only
  rw [if_neg (Nat.ne_of_gt present), if_neg (Int.not_lt.mpr small), if_neg (Int.not_lt.mpr large), rounded,
    holds.magnitude, if_neg (Nat.not_le.mpr holds.finite)]

end

end TrackedRecord.Decimal
