import TrackedRecord.Decimal.Shortest
import TrackedRecord.Proofs.Decimal.Rounding

/-!
# The shortest digits read back

The digits that are found for a number lie around it: on a grid that is fine enough the neighbour below the number
does, so one of the grids that are tested has a hit, and a hit is tested itself.
-/

namespace TrackedRecord.Decimal

def Digits.value (d : Digits) : ℚ := d.digits * 10 ^ d.exponent

namespace Interval

variable {f : Format} {m n d : Nat} {e k : Int} {tie : Tie}

theorem gridUnit_pos (k : Int) : 0 < (gridUnit k).1 ∧ 0 < (gridUnit k).2 := by
  unfold gridUnit
  split
  · exact ⟨Nat.pow_pos (by decide), one_pos⟩
  · exact ⟨one_pos, Nat.pow_pos (by decide)⟩

theorem gridUnit_value (k : Int) : ((gridUnit k).1 / (gridUnit k).2 : ℚ) = 10 ^ k := by
  unfold gridUnit
  split
  · rename_i upward
    obtain ⟨n, rfl⟩ := Int.eq_ofNat_of_zero_le upward
    simp
  · rename_i downward
    obtain ⟨n, same⟩ := Int.eq_ofNat_of_zero_le (Int.le_of_lt (Int.neg_pos_of_neg (Int.not_le.mp downward)))
    obtain rfl : k = -(n : Int) := by omega
    simp

/-! ### The interval of a number -/

theorem of_den_pos : 0 < (Interval.of f m e).den := Format.scale_den_pos one_pos

theorem of_scaled (a : ℚ) : a * (Format.scale 1 1 (e - 2)).1 / (Format.scale 1 1 (e - 2)).2 = a / 4 * 2 ^ e := by
  rw [mul_div_assoc, Format.scale_value, zpow_sub₀ two_ne_zero]
  norm_num
  ring

theorem of_value : ((Interval.of f m e).value / (Interval.of f m e).den : ℚ) = m * 2 ^ e := by
  have scaled := of_scaled (e := e) (4 * m)
  rw [mul_div_cancel_left₀ _ (four_ne_zero)] at scaled
  rw [← scaled]
  exact_mod_cast rfl

theorem of_low (positive : 0 < m) :
    ((Interval.of f m e).low / (Interval.of f m e).den : ℚ) = (4 * m - f.below m e) / 4 * 2 ^ e := by
  rw [← of_scaled]
  have least : f.below m e ≤ 4 * m := by
    unfold Format.below
    split <;> omega
  have cast : ((4 * m - f.below m e : Nat) : ℚ) = 4 * m - f.below m e := by
    rw [Nat.cast_sub least]
    push_cast
    rfl
  rw [← cast]
  exact_mod_cast rfl

theorem of_high : ((Interval.of f m e).high / (Interval.of f m e).den : ℚ) = (4 * m + 2) / 4 * 2 ^ e := by
  rw [← of_scaled]
  exact_mod_cast rfl

theorem mul_le_mul_iff_div {a b c d : Nat} (divisor : 0 < b) (divisor' : 0 < d) :
    a * d ≤ c * b ↔ (a / b : ℚ) ≤ c / d := by
  rw [div_le_div_iff₀ (by exact_mod_cast divisor) (by exact_mod_cast divisor')]
  exact_mod_cast Iff.rfl

/-- What an interval contains lies around its number. -/
theorem contains_iff (positive : 0 < m) (divisor : 0 < d) :
    (Interval.of f m e).contains n d = true ↔ f.Near m e (n / d) := by
  have low := of_low (f := f) (e := e) positive
  have high := of_high (f := f) (m := m) (e := e)
  have den_pos := of_den_pos (f := f) (m := m) (e := e)
  have closed : (Interval.of f m e).closed = decide (m % 2 = 0) := rfl
  unfold contains
  rw [closed]
  generalize (Interval.of f m e).den = t at low high den_pos ⊢
  have under := mul_le_mul_iff_div (a := (Interval.of f m e).low) (c := n) den_pos divisor
  have above := mul_le_mul_iff_div (a := n) (c := (Interval.of f m e).high) divisor den_pos
  have under' := (mul_le_mul_iff_div (a := n) (c := (Interval.of f m e).low) divisor den_pos).not
  have above' := (mul_le_mul_iff_div (a := (Interval.of f m e).high) (c := n) den_pos divisor).not
  rw [low] at under under'
  rw [high] at above above'
  rw [not_le, not_le] at under' above'
  by_cases even : m % 2 = 0
  · rw [if_pos (decide_eq_true even), Bool.and_eq_true, decide_eq_true_iff, decide_eq_true_iff, under, above]
    exact ⟨fun ⟨low, high⟩ => ⟨by linarith, by linarith, .inl even⟩,
      fun near => ⟨by linarith [near.low], by linarith [near.high]⟩⟩
  · rw [if_neg (by simpa using even), Bool.and_eq_true, decide_eq_true_iff, decide_eq_true_iff, under', above']
    refine ⟨fun ⟨low, high⟩ => ⟨by linarith, by linarith, .inr ⟨by linarith, by linarith⟩⟩, fun near => ?_⟩
    obtain ⟨low, high⟩ := near.tie.resolve_left even
    exact ⟨by linarith, by linarith⟩

/-! ### Grids -/

theorem grid_value (digits : Nat) (k : Int) :
    ((digits * (gridUnit k).1 : Nat) / (gridUnit k).2 : ℚ) = digits * 10 ^ k := by
  rw [Nat.cast_mul, mul_div_assoc, gridUnit_value]

theorem hit?_near (positive : 0 < m) {digits : Nat} (hit : (Interval.of f m e).hit? tie k = some digits) :
    0 < digits ∧ f.Near m e (digits * 10 ^ k) := by
  have inside {digits : Nat} (found : (Interval.of f m e).contains (digits * (gridUnit k).1) (gridUnit k).2 = true) :
      f.Near m e (digits * 10 ^ k) := by
    have near := (contains_iff positive (gridUnit_pos k).2).mp found
    rwa [grid_value] at near
  unfold hit? at hit
  dsimp only at hit
  generalize (Interval.of f m e).value * (gridUnit k).2 / ((Interval.of f m e).den * (gridUnit k).1) = floor at hit
  split at hit
  · rename_i down up
    rw [Bool.and_eq_true, bne_iff_ne] at down
    have low := inside down.1
    have high := inside up
    split at hit
    · cases hit
      exact ⟨Nat.pos_of_ne_zero down.2, low⟩
    · split at hit
      · cases hit
        exact ⟨Nat.succ_pos _, high⟩
      · split at hit
        · cases hit
          exact ⟨Nat.succ_pos _, high⟩
        · cases hit
          rcases Nat.mod_two_eq_zero_or_one floor with even | odd
          · rw [even]
            exact ⟨Nat.pos_of_ne_zero down.2, low⟩
          · rw [odd]
            exact ⟨Nat.succ_pos _, high⟩
  · rename_i down _
    cases hit
    rw [Bool.and_eq_true, bne_iff_ne] at down
    exact ⟨Nat.pos_of_ne_zero down.2, inside down.1⟩
  · rename_i up
    cases hit
    exact ⟨Nat.succ_pos _, inside up⟩
  · cases hit

/-- The number lies between two neighbours on a grid. -/
theorem grid_neighbours {floor : Nat}
    (same : (Interval.of f m e).value * (gridUnit k).2 / ((Interval.of f m e).den * (gridUnit k).1) = floor) :
    (floor * 10 ^ k : ℚ) ≤ m * 2 ^ e ∧ (m * 2 ^ e : ℚ) < (floor + 1) * 10 ^ k := by
  obtain ⟨num_pos, den_pos⟩ := gridUnit_pos k
  have divisor := of_den_pos (f := f) (m := m) (e := e)
  rw [← of_value (f := f), ← Nat.cast_add_one, ← grid_value, ← grid_value, ← mul_le_mul_iff_div den_pos divisor,
    ← not_le, ← mul_le_mul_iff_div den_pos divisor, not_le, Nat.mul_assoc, Nat.mul_assoc, Nat.mul_comm (gridUnit k).1]
  refine ⟨?_, (Nat.div_lt_iff_lt_mul (Nat.mul_pos divisor num_pos)).mp (same ▸ Nat.lt_succ_self _)⟩
  rw [← same]
  exact Nat.div_mul_le_self _ _

/-- A grid with four units in the last place of a number has its neighbour below inside the interval. -/
theorem hit?_isSome (tie : Tie) (f : Format) (positive : 0 < m) (fine : (4 * 10 ^ k : ℚ) ≤ 2 ^ e) :
    ((Interval.of f m e).hit? tie k).isSome = true := by
  have m_pos : (1 : ℚ) ≤ m := by exact_mod_cast positive
  have unit : (0 : ℚ) < 10 ^ k := by positivity
  unfold hit?
  dsimp only
  generalize same : (Interval.of f m e).value * (gridUnit k).2 / ((Interval.of f m e).den * (gridUnit k).1) = floor
  obtain ⟨floor_le, lt_floor⟩ := grid_neighbours same
  have low : ((4 * m - f.below m e) * 2 ^ e : ℚ) < 4 * (floor * 10 ^ k) := by
    have nearest : (1 : ℚ) ≤ f.below m e := by exact_mod_cast (by unfold Format.below; split <;> decide)
    nlinarith
  have high : (4 * (floor * 10 ^ k) : ℚ) < (4 * m + 2) * 2 ^ e := by nlinarith
  have inside : (Interval.of f m e).contains (floor * (gridUnit k).1) (gridUnit k).2 = true := by
    rw [contains_iff positive (gridUnit_pos k).2, grid_value]
    exact ⟨low.le, high.le, .inr ⟨low, high⟩⟩
  have present : (floor != 0) = true := by
    rw [bne_iff_ne]
    rintro rfl
    rw [Nat.cast_zero, zero_add, one_mul] at lt_floor
    nlinarith
  cases up : (Interval.of f m e).contains ((floor + 1) * (gridUnit k).1) (gridUnit k).2 with
  | false => simp only [inside, present, Bool.and_self, Option.isSome_some]
  | true =>
    simp only [inside, present, Bool.and_self]
    split
    · rfl
    · split
      · rfl
      · cases tie <;> rfl

/-! ### The search -/

theorem search_near (tie : Tie) (f : Format) (positive : 0 < m) {count : Nat}
    (fine : (4 * 10 ^ (k - count) : ℚ) ≤ 2 ^ e) :
    0 < ((Interval.of f m e).search tie (count + 1) k).digits ∧
      f.Near m e ((Interval.of f m e).search tie (count + 1) k).value := by
  induction count generalizing k with
  | zero =>
    rw [Nat.cast_zero, sub_zero] at fine
    obtain ⟨digits, hit⟩ := Option.isSome_iff_exists.mp (hit?_isSome tie f positive fine)
    rw [search, hit]
    exact hit?_near positive hit
  | succ count ih =>
    rw [search]
    split
    · rename_i digits hit
      exact hit?_near positive hit
    · apply ih
      rwa [show k - 1 - (count : Int) = k - (count + 1 : Nat) by omega]

/-- A tenth of `0.30103 * b` decimal places is no more than `b` binary ones, as far as doubles go. -/
theorem pow_guess_le {b g : Int} (guess : g = b * 30103 / 100000) (low : -1200 ≤ b) (high : b ≤ 1200) :
    (10 : ℚ) ^ (g - 1) ≤ 2 ^ b := by
  by_contra more
  rw [not_le] at more
  rcases le_or_gt 0 b with upward | downward
  · have powers : (10 : ℚ) ^ (59 * b) < 10 ^ ((g - 1) * 196) := by
      calc (10 : ℚ) ^ (59 * b) = (10 ^ 59) ^ b := zpow_mul 10 59 b
        _ ≤ (2 ^ 196) ^ b := zpow_le_zpow_left₀ upward (by norm_num) (by norm_num)
        _ = (2 ^ b) ^ 196 := by
          rw [← zpow_natCast, ← zpow_natCast, ← zpow_mul, ← zpow_mul, mul_comm]
        _ < (10 ^ (g - 1)) ^ 196 := by gcongr
        _ = 10 ^ ((g - 1) * 196) := (zpow_mul 10 (g - 1) 196).symm
    have := (zpow_lt_zpow_iff_right₀ (by norm_num)).mp powers
    omega
  · have powers : (10 : ℚ) ^ (28 * b) < 10 ^ ((g - 1) * 93) := by
      calc (10 : ℚ) ^ (28 * b) = (10 ^ 28) ^ b := zpow_mul 10 28 b
        _ ≤ (2 ^ 93) ^ b := by
          obtain ⟨n, rfl⟩ : ∃ n : Nat, b = -n := ⟨b.natAbs, by omega⟩
          rw [zpow_neg, zpow_neg, zpow_natCast, zpow_natCast]
          gcongr
          norm_num
        _ = (2 ^ b) ^ 93 := by
          rw [← zpow_natCast, ← zpow_natCast, ← zpow_mul, ← zpow_mul, mul_comm]
        _ < (10 ^ (g - 1)) ^ 93 := by gcongr
        _ = 10 ^ ((g - 1) * 93) := (zpow_mul 10 (g - 1) 93).symm
    have := (zpow_lt_zpow_iff_right₀ (by norm_num)).mp powers
    omega

theorem decimalExponent_le (i : Interval) (divisor : 0 < i.den)
    (low : (2 : ℚ) ^ (-1200 : Int) ≤ i.value / i.den) (high : (i.value / i.den : ℚ) ≤ 2 ^ (1200 : Int)) :
    (10 : ℚ) ^ i.decimalExponent ≤ i.value / i.den := by
  have present : 0 < i.value := by
    apply Nat.pos_of_ne_zero
    intro zero
    rw [zero, Nat.cast_zero, zero_div] at low
    exact absurd low (not_le.mpr (by positivity))
  have fits (k : Int) : (gridUnit k).1 * i.den ≤ i.value * (gridUnit k).2 ↔ (10 : ℚ) ^ k ≤ i.value / i.den := by
    rw [mul_le_mul_iff_div (gridUnit_pos k).2 divisor, gridUnit_value]
  unfold decimalExponent
  dsimp only
  split
  · rename_i fit
    exact (fits _).mp (of_decide_eq_true fit)
  · split
    · rename_i fit
      exact (fits _).mp (of_decide_eq_true fit)
    · obtain ⟨least, most⟩ := Format.binaryExponent_spec present divisor
      refine (pow_guess_le rfl ?_ ?_).trans least
      · have := (zpow_lt_zpow_iff_right₀ one_lt_two).mp (low.trans_lt most)
        omega
      · exact (zpow_le_zpow_iff_right₀ one_lt_two).mp (least.trans high)

end Interval

/-! ### Shortest digits -/

theorem Digits.trimmed_spec (n : Nat) (d : Digits) (positive : 0 < d.digits) :
    0 < (d.trimmed n).digits ∧ (d.trimmed n).value = d.value := by
  induction n generalizing d with
  | zero => exact ⟨positive, rfl⟩
  | succ n ih =>
    rw [trimmed]
    split
    · rename_i tens
      have whole : d.digits / 10 * 10 = d.digits := Nat.div_mul_cancel (Nat.dvd_of_mod_eq_zero tens.1)
      obtain ⟨present, same⟩ := ih ⟨d.digits / 10, d.exponent + 1⟩ (by dsimp only; omega)
      refine ⟨present, same.trans ?_⟩
      unfold value
      dsimp only
      rw [zpow_add_one₀ (by norm_num), ← whole]
      push_cast
      rw [Nat.mul_div_cancel _ (by decide)]
      ring
    · exact ⟨positive, rfl⟩

/-- The shortest digits of a double lie around it. -/
theorem shortest_near {m : Nat} {e : Int} (holds : double.Holds m e) (positive : 0 < m) (tie : Tie) :
    0 < (shortest tie double m e).digits ∧ double.Near m e (shortest tie double m e).value := by
  have least : -1074 ≤ e := holds.least
  have greatest := holds.double_le
  have small : (m : ℚ) ≤ 2 ^ 53 := by exact_mod_cast Nat.le_of_lt holds.small
  have m_pos : (1 : ℚ) ≤ m := by exact_mod_cast positive
  have unit : (0 : ℚ) < 2 ^ e := by positivity
  have value := Interval.of_value (f := double) (m := m) (e := e)
  have leading := (Interval.of double m e).decimalExponent_le Interval.of_den_pos
    (by
      rw [value]
      calc (2 : ℚ) ^ (-1200 : Int) ≤ 2 ^ e := zpow_le_zpow_right₀ (by norm_num) (by omega)
        _ ≤ m * 2 ^ e := le_mul_of_one_le_left unit.le m_pos)
    (by
      rw [value]
      calc (m * 2 ^ e : ℚ) ≤ 2 ^ 53 * 2 ^ (971 : Int) := by
            gcongr
            norm_num
        _ ≤ 2 ^ (1200 : Int) := by
          rw [← zpow_natCast, ← zpow_add₀ two_ne_zero]
          exact zpow_le_zpow_right₀ (by norm_num) (by norm_num))
  rw [value] at leading
  have fine : (4 * 10 ^ ((Interval.of double m e).decimalExponent - (17 : Nat)) : ℚ) ≤ 2 ^ e := by
    rw [zpow_sub₀ (by norm_num), zpow_natCast]
    norm_num
    nlinarith
  obtain ⟨found, near⟩ := Interval.search_near tie double positive fine
  obtain ⟨trimmed, same⟩ := Digits.trimmed_spec 20 _ found
  exact ⟨trimmed, same ▸ near⟩

end TrackedRecord.Decimal
