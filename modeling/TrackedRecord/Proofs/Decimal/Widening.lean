import Mathlib.Algebra.Group.Nat.Defs
import TrackedRecord.Decimal.Binary

/-!
# Numbers that a format holds exactly

A number that a format holds is rounded to itself, however it is written as a whole number times a power of
two. Every finite single is a double, so it comes back when it is widened and narrowed again.
-/

namespace TrackedRecord.Decimal.Format

/-! ### Powers of two -/

theorem scale_eq (num den : Nat) (shift : Int) :
    scale num den shift = (num * 2 ^ shift.toNat, den * 2 ^ (-shift).toNat) := by
  unfold scale
  simp only [Nat.pow_eq]
  split
  · rw [show (-shift).toNat = 0 by omega, Nat.pow_zero, Nat.mul_one]
  · rw [show shift.toNat = 0 by omega, Nat.pow_zero, Nat.mul_one]

theorem log2_mul_pow {m : Nat} (positive : 0 < m) (k : Nat) : (m * 2 ^ k).log2 = m.log2 + k := by
  have scaled : m * 2 ^ k ≠ 0 := Nat.mul_ne_zero (by omega) (Nat.ne_of_gt (Nat.two_pow_pos k))
  rw [Nat.log2_eq_iff scaled]
  have above : m < 2 ^ (m.log2 + 1) := Nat.lt_log2_self
  constructor
  · rw [Nat.pow_add]
    exact Nat.mul_le_mul_right _ (Nat.log2_self_le (by omega))
  · rw [show m.log2 + k + 1 = m.log2 + 1 + k by omega, Nat.pow_add]
    exact Nat.mul_lt_mul_of_pos_right above (Nat.two_pow_pos k)

/-- The guess is exact where the denominator is a power of two. -/
theorem binaryExponent_scale {m : Nat} (positive : 0 < m) (e : Int) :
    binaryExponent (m * 2 ^ e.toNat) (2 ^ (-e).toNat) = m.log2 + e := by
  have guess : ((m * 2 ^ e.toNat).log2 : Int) - ((2 ^ (-e).toNat).log2 : Int) = m.log2 + e := by
    rw [log2_mul_pow positive, Nat.log2_two_pow]
    omega
  unfold binaryExponent
  dsimp only
  rw [guess, scale_eq]
  dsimp only
  rw [if_pos]
  have leading : 2 ^ m.log2 ≤ m := Nat.log2_self_le (by omega)
  generalize upward : (-((m.log2 : Int) + e)).toNat = up
  generalize downward : (- -((m.log2 : Int) + e)).toNat = down
  calc
    2 ^ (-e).toNat * 2 ^ down = 2 ^ m.log2 * (2 ^ e.toNat * 2 ^ up) := by
      rw [← Nat.pow_add, ← Nat.pow_add, ← Nat.pow_add]
      congr 1
      omega
    _ ≤ m * (2 ^ e.toNat * 2 ^ up) := Nat.mul_le_mul_right _ leading
    _ = m * 2 ^ e.toNat * 2 ^ up := (Nat.mul_assoc _ _ _).symm

theorem divideToEven_mul (q : Nat) {d : Nat} (positive : 0 < d) : divideToEven (q * d) d = q := by
  unfold divideToEven
  rw [Nat.mul_div_cancel q positive, Nat.mul_mod_left]
  exact if_pos (by omega)

/-- `m * 2 ^ e` is `q * 2 ^ E`. -/
def Equals (m : Nat) (e : Int) (q : Nat) (E : Int) : Prop :=
  m * 2 ^ (e - E).toNat = q * 2 ^ (E - e).toNat

theorem Equals.log2 {m q : Nat} {e E : Int} (equals : Equals m e q E) (positive : 0 < m) (positive' : 0 < q) :
    (m.log2 : Int) + e = q.log2 + E := by
  have logs := congrArg Nat.log2 equals
  rw [log2_mul_pow positive, log2_mul_pow positive'] at logs
  omega

/-- A number over a power of two, divided by the unit of which it is a multiple. -/
theorem Equals.divides {m q : Nat} {e E : Int} (equals : Equals m e q E) :
    m * 2 ^ e.toNat * 2 ^ (-E).toNat = q * (2 ^ (-e).toNat * 2 ^ (- -E).toNat) := by
  unfold Equals at equals
  apply Nat.eq_of_mul_eq_mul_right (Nat.two_pow_pos (E - e).toNat)
  calc
    m * 2 ^ e.toNat * 2 ^ (-E).toNat * 2 ^ (E - e).toNat
        = m * 2 ^ (e - E).toNat * (2 ^ (-e).toNat * 2 ^ (- -E).toNat) := by
      rw [Nat.mul_assoc, Nat.mul_assoc, Nat.mul_assoc, ← Nat.pow_add, ← Nat.pow_add, ← Nat.pow_add, ← Nat.pow_add]
      congr 2
      omega
    _ = q * (2 ^ (-e).toNat * 2 ^ (- -E).toNat) * 2 ^ (E - e).toNat := by
      rw [equals, Nat.mul_right_comm]

/-! ### Patterns -/

/-- The pattern of a number without its sign. -/
def pattern (f : Format) (m : Nat) (e : Int) : Nat := (e - f.leastExponent).toNat * 2 ^ f.fractionBits + m

/-- A significand and an exponent as a finite number has them. -/
structure Holds (f : Format) (m : Nat) (e : Int) : Prop where
  least : f.leastExponent ≤ e
  small : m < 2 ^ (f.fractionBits + 1)
  normal : f.leastExponent < e → 2 ^ f.fractionBits ≤ m
  finite : f.pattern m e < f.infinity

variable {f g : Format} {m M : Nat} {e E : Int} {negative : Bool} {bits : Nat}

theorem infinity_lt (f : Format) : f.infinity < f.signBit := by
  unfold infinity signBit
  simp only [Nat.pow_eq]
  rw [Nat.pow_add]
  have positive := Nat.two_pow_pos f.exponentBits
  exact Nat.mul_lt_mul_of_pos_right (by omega) (Nat.two_pow_pos f.fractionBits)

theorem unpack_finite (unpacked : f.unpack bits = .finite negative m e) :
    f.Holds m e ∧ f.pattern m e = bits % f.signBit ∧ negative = decide (f.signBit ≤ bits) := by
  unfold unpack at unpacked
  simp only [Nat.pow_eq] at unpacked
  generalize magnitude_eq : bits % f.signBit = magnitude at unpacked ⊢
  have split_at : magnitude / 2 ^ f.fractionBits * 2 ^ f.fractionBits + magnitude % 2 ^ f.fractionBits = magnitude :=
    Nat.div_add_mod' magnitude _
  have fraction : magnitude % 2 ^ f.fractionBits < 2 ^ f.fractionBits := Nat.mod_lt _ (Nat.two_pow_pos _)
  have double : 2 ^ (f.fractionBits + 1) = 2 * 2 ^ f.fractionBits := Nat.pow_succ'
  split at unpacked
  · cases unpacked
  · split at unpacked
    · cases unpacked
    · have below : magnitude < f.infinity := by omega
      split at unpacked
      · rename_i subnormal
        cases unpacked
        have same : f.pattern (magnitude % 2 ^ f.fractionBits) f.leastExponent = magnitude := by
          rw [pattern, Int.sub_self]
          rw [subnormal] at split_at
          exact split_at
        exact ⟨⟨Int.le_refl _, by omega, fun above => absurd above (Int.lt_irrefl _),
          Nat.lt_of_le_of_lt (Nat.le_of_eq same) below⟩, same, rfl⟩
      · rename_i normal
        cases unpacked
        generalize biased_eq : magnitude / 2 ^ f.fractionBits = biased at split_at normal ⊢
        obtain ⟨steps, rfl⟩ : ∃ steps, biased = steps + 1 := ⟨biased - 1, by omega⟩
        have same : f.pattern (2 ^ f.fractionBits + magnitude % 2 ^ f.fractionBits)
            (f.leastExponent + (steps + 1 : Nat) - 1) = magnitude := by
          rw [pattern, show (f.leastExponent + (steps + 1 : Nat) - 1 - f.leastExponent).toNat = steps by omega]
          rw [Nat.add_mul, Nat.one_mul] at split_at
          omega
        exact ⟨⟨by omega, by omega, fun _ => Nat.le_add_right _ _,
          Nat.lt_of_le_of_lt (Nat.le_of_eq same) below⟩, same, rfl⟩

theorem Holds.magnitude (holds : f.Holds m e) (negative : Bool) :
    (f.pattern m e + if negative then f.signBit else 0) % f.signBit = f.pattern m e := by
  have below := holds.finite
  have under := f.infinity_lt
  cases negative with
  | true => rw [if_pos rfl, Nat.add_mod_right, Nat.mod_eq_of_lt (by omega)]
  | false => rw [if_neg Bool.false_ne_true, Nat.add_zero, Nat.mod_eq_of_lt (by omega)]

theorem Holds.unpack_pattern (holds : f.Holds m e) (negative : Bool) :
    f.unpack (f.pattern m e + if negative then f.signBit else 0) = .finite negative m e := by
  have below := holds.finite
  have under := f.infinity_lt
  have sign : decide (f.signBit ≤ f.pattern m e + if negative then f.signBit else 0) = negative := by
    cases negative with
    | true => exact decide_eq_true (by rw [if_pos rfl]; omega)
    | false => exact decide_eq_false (by rw [if_neg Bool.false_ne_true]; omega)
  have double : 2 ^ (f.fractionBits + 1) = 2 * 2 ^ f.fractionBits := Nat.pow_succ'
  have small := holds.small
  unfold unpack
  simp only [Nat.pow_eq]
  rw [holds.magnitude, sign, if_neg (by omega), if_neg (by omega)]
  have unit := Nat.two_pow_pos f.fractionBits
  by_cases normal : 2 ^ f.fractionBits ≤ m
  · have biased : f.pattern m e / 2 ^ f.fractionBits = (e - f.leastExponent).toNat + 1 := by
      rw [pattern, Nat.mul_comm, Nat.mul_add_div unit]
      congr 1
      exact Nat.div_eq_of_lt_le (by omega) (by omega)
    have fraction : f.pattern m e % 2 ^ f.fractionBits = m - 2 ^ f.fractionBits := by
      rw [pattern, Nat.mul_comm, Nat.mul_add_mod, Nat.mod_eq_sub_mod normal, Nat.mod_eq_of_lt (by omega)]
    have least := holds.least
    rw [biased, fraction, if_neg (by omega)]
    congr 1 <;> omega
  · have least : e = f.leastExponent := by
      have least := holds.least
      have normal' := holds.normal
      omega
    have same : f.pattern m e = m := by
      rw [pattern, least, Int.sub_self]
      exact (congrArg (· + m) (Nat.zero_mul _)).trans (Nat.zero_add m)
    rw [same, Nat.div_eq_of_lt (by omega), if_pos rfl, Nat.mod_eq_of_lt (by omega), least]

/-! ### Rounding what is held -/

theorem Holds.round_eq (holds : g.Holds m e) (equals : Equals M E m e) (negative : Bool) :
    g.round negative (M * 2 ^ E.toNat) (2 ^ (-E).toNat) =
      g.pattern m e + if negative then g.signBit else 0 := by
  have least := holds.least
  have normal := holds.normal
  unfold round
  congr 1
  unfold roundMagnitude
  rcases Nat.eq_zero_or_pos M with rfl | positive
  · -- zero has the least exponent
    have zero : m = 0 := by
      have product : 0 * 2 ^ (E - e).toNat = m * 2 ^ (e - E).toNat := equals
      rw [Nat.zero_mul] at product
      exact (Nat.mul_eq_zero.mp product.symm).resolve_right (Nat.ne_of_gt (Nat.two_pow_pos _))
    have unit := Nat.two_pow_pos g.fractionBits
    rw [Nat.zero_mul, if_pos rfl, pattern, show (e - g.leastExponent).toNat = 0 by omega, Nat.zero_mul, zero]
  · have positive' : 0 < m := by
      apply Nat.pos_of_ne_zero
      rintro rfl
      have product : M * 2 ^ (E - e).toNat = 0 * 2 ^ (e - E).toNat := equals
      rw [Nat.zero_mul] at product
      have unit := Nat.two_pow_pos (E - e).toNat
      have := Nat.mul_pos positive unit
      omega
    have unit : max ((M.log2 : Int) + E - g.fractionBits) g.leastExponent = e := by
      have lead : m.log2 < g.fractionBits + 1 := (Nat.log2_lt (by omega)).mpr holds.small
      have same := equals.log2 positive positive'
      by_cases above : g.leastExponent < e
      · have full : g.fractionBits ≤ m.log2 := (Nat.le_log2 (by omega)).mpr (normal above)
        omega
      · by_cases full : m.log2 = g.fractionBits <;> omega
    have nonzero : M * 2 ^ E.toNat ≠ 0 := Nat.ne_of_gt (Nat.mul_pos positive (Nat.two_pow_pos _))
    rw [if_neg nonzero]
    dsimp only
    rw [binaryExponent_scale positive, unit, scale_eq]
    dsimp only
    rw [equals.divides, divideToEven_mul _ (Nat.mul_pos (Nat.two_pow_pos _) (Nat.two_pow_pos _)), Nat.pow_eq]
    exact Nat.min_eq_left (Nat.le_of_lt holds.finite)

theorem Holds.convert_eq (holds : g.Holds m e) (equals : Equals M E m e)
    (unpacked : f.unpack bits = .finite negative M E) :
    f.convert g bits = g.pattern m e + if negative then g.signBit else 0 := by
  unfold convert
  rw [unpacked]
  dsimp only
  rw [scale_eq]
  dsimp only
  rw [Nat.one_mul]
  exact holds.round_eq equals negative

/-! ### Singles among the doubles -/

/-- A double writes the number of a single with more digits of its significand. -/
theorem Holds.widen (holds : single.Holds m e) : ∃ m' e', double.Holds m' e' ∧ Equals m e m' e' := by
  have least : -149 ≤ e := holds.least
  rcases Nat.eq_zero_or_pos m with rfl | positive
  · refine ⟨0, double.leastExponent, ⟨Int.le_refl _, by decide, fun above => ?_, by decide⟩, by simp [Equals]⟩
    exact absurd above (Int.lt_irrefl _)
  · have lead : m.log2 < 24 := (Nat.log2_lt (by omega)).mpr holds.small
    have floor : 2 ^ m.log2 ≤ m := Nat.log2_self_le (by omega)
    have ceiling : m < 2 ^ (m.log2 + 1) := Nat.lt_log2_self
    obtain ⟨up, total⟩ : ∃ up, m.log2 + up = 52 := ⟨52 - m.log2, by omega⟩
    have low : 2 ^ 52 ≤ m * 2 ^ up := by
      rw [← total, Nat.pow_add]
      exact Nat.mul_le_mul_right _ floor
    have high : m * 2 ^ up < 2 ^ 53 := by
      rw [show 53 = m.log2 + 1 + up by omega, Nat.pow_add]
      exact Nat.mul_lt_mul_of_pos_right ceiling (Nat.two_pow_pos _)
    have top : e ≤ 105 := by
      have finite : (e + 149).toNat * 2 ^ 23 + m < 255 * 2 ^ 23 := holds.finite
      omega
    refine ⟨m * 2 ^ up, e - up, ⟨?_, high, fun _ => low, ?_⟩, ?_⟩
    · change (-1074 : Int) ≤ e - up
      omega
    · change (e - up + 1074).toNat * 2 ^ 52 + m * 2 ^ up < 2047 * 2 ^ 52
      omega
    · rw [Equals, show (e - (e - up)).toNat = up by omega, show (e - up - e).toNat = 0 by omega, Nat.pow_zero,
        Nat.mul_one]

theorem Equals.symm (equals : Equals m e M E) : Equals M E m e := Eq.symm equals

/-- A pattern is that of its number, with the sign. -/
theorem pattern_of_unpack (inside : bits < 2 * f.signBit) (unpacked : f.unpack bits = .finite negative m e) :
    (f.pattern m e + if negative then f.signBit else 0) = bits := by
  obtain ⟨_, same, sign⟩ := unpack_finite unpacked
  rw [same, sign]
  by_cases above : f.signBit ≤ bits
  · rw [if_pos (decide_eq_true above), Nat.mod_eq_sub_mod above, Nat.mod_eq_of_lt (by omega)]
    omega
  · rw [if_neg (by simpa using above), Nat.mod_eq_of_lt (by omega), Nat.add_zero]

/-- A finite single is widened to a finite double, and that is narrowed to the single. -/
theorem narrow_widen (inside : bits < 2 * single.signBit) (finite : single.unpack bits = .finite negative m e) :
    single.convert double bits < 2 * double.signBit ∧
      (∃ m' e', double.unpack (single.convert double bits) = .finite negative m' e') ∧
      double.convert single (single.convert double bits) = bits := by
  obtain ⟨m', e', wide, equals⟩ := (unpack_finite finite).1.widen
  have unpacked := wide.unpack_pattern negative
  have below := wide.finite
  have under := double.infinity_lt
  rw [wide.convert_eq equals finite]
  refine ⟨?_, ⟨m', e', unpacked⟩, ?_⟩
  · split <;> omega
  · rw [(unpack_finite finite).1.convert_eq equals.symm unpacked]
    exact pattern_of_unpack inside finite

end TrackedRecord.Decimal.Format
