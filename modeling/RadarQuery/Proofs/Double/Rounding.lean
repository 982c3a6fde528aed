import Mathlib.Tactic.Ring
import RadarQuery.Double.Rounding

/-!
What rounding depends on. Rounding looks at the value of a quotient and not at
its terms, a size is a fixed point of it, and the decimals that are decided
without a computation get what the computation would give. So a decimal may be
written with more or fewer zeros without changing the double it stands for.
-/

namespace RadarQuery.Double

theorem roundHalfEven_mul_right (num den : ℕ) {k : ℕ} (hk : 0 < k) :
    roundHalfEven (num * k) (den * k) = roundHalfEven num den := by
  have hrest : 2 * (num * k % (den * k)) = 2 * (num % den) * k := by
    rw [Nat.mul_mod_mul_right, Nat.mul_assoc]
  simp only [roundHalfEven, Nat.mul_div_mul_right num den hk, hrest,
    Nat.mul_lt_mul_right hk, Nat.mul_left_inj (Nat.ne_of_gt hk)]

theorem roundHalfEven_one (n : ℕ) : roundHalfEven n 1 = n := by
  simp [roundHalfEven, Nat.mod_one]

theorem nearestRank_mul_right (num den : ℕ) {k : ℕ} (hk : 0 < k) :
    nearestRank (num * k) (den * k) = nearestRank num den := by
  simp only [nearestRank, Nat.mul_div_mul_right num den hk, Nat.mul_right_comm den k,
    roundHalfEven_mul_right _ _ hk]

theorem ofQuotient_mul_right (negative : Bool) (num den : ℕ) {k : ℕ} (hk : 0 < k) :
    ofQuotient negative (num * k) (den * k) = ofQuotient negative num den := by
  simp only [ofQuotient, nearestRank_mul_right num den hk]

/-- Equal quotients are rounded to the same number. -/
theorem ofQuotient_congr (negative : Bool) {num den num' den' : ℕ} (hden : 0 < den)
    (hden' : 0 < den') (h : num * den' = num' * den) :
    ofQuotient negative num den = ofQuotient negative num' den' := by
  rw [← ofQuotient_mul_right negative num den hden', h, Nat.mul_comm den den',
    ofQuotient_mul_right negative num' den' hden]

theorem significand_lt (size : Magnitude) : size.significand < 2 ^ 53 := by
  simp only [Magnitude.significand, Nat.pow_eq]
  split <;> omega

/-- The digits of a shifted size fill all 53 places. -/
theorem le_significand_of_shift_pos (size : Magnitude) (h : 0 < size.shift) :
    2 ^ 52 ≤ size.significand := by
  simp only [Magnitude.shift, Nat.pow_eq] at h
  simp only [Magnitude.significand, Nat.pow_eq]
  split <;> omega

theorem shift_add_significand (size : Magnitude) :
    size.shift * 2 ^ 52 + size.significand = size.rank := by
  simp only [Magnitude.shift, Magnitude.significand, Nat.pow_eq]
  split <;> omega

/-- The places that rounding cuts off a size are those it is shifted by. -/
theorem log2_units_sub (size : Magnitude) : Nat.log2 size.units - 52 = size.shift := by
  have hlt := significand_lt size
  by_cases hshift : size.shift = 0
  · have hunits : size.units = size.significand := by
      rw [Magnitude.units, hshift, Nat.pow_eq, Nat.pow_zero, Nat.mul_one]
    by_cases hzero : size.significand = 0
    · simp [hunits, hzero, hshift]
    · have hlog := (Nat.log2_lt hzero).mpr hlt
      rw [hunits]
      omega
  · have hle := le_significand_of_shift_pos size (by omega)
    have hpos : 0 < 2 ^ size.shift := Nat.two_pow_pos _
    have hunits : 2 ^ 52 * 2 ^ size.shift ≤ size.units := Nat.mul_le_mul_right _ hle
    have hunits' : size.units < 2 ^ 53 * 2 ^ size.shift := Nat.mul_lt_mul_of_pos_right hlt hpos
    rw [← Nat.pow_add] at hunits hunits'
    have hlog : Nat.log2 size.units = 52 + size.shift := by
      apply (Nat.log2_eq_iff (by have := Nat.two_pow_pos (52 + size.shift); omega)).mpr
      exact ⟨hunits, by rwa [show 52 + size.shift + 1 = 53 + size.shift by omega]⟩
    omega

theorem nearestRank_units (size : Magnitude) : nearestRank size.units 1 = size.rank := by
  have hexact : roundHalfEven size.units (1 * 2 ^ size.shift) = size.significand := by
    have hpos : 0 < 2 ^ size.shift := Nat.two_pow_pos _
    simp [roundHalfEven, Magnitude.units, hpos]
  simp only [nearestRank, Nat.pow_eq, Nat.div_one, log2_units_sub, hexact, shift_add_significand]

/-- A finite number is what its own value is rounded to. -/
theorem ofQuotient_units (negative : Bool) (size : Magnitude) {k : ℕ} (hk : 0 < k) :
    ofQuotient negative (size.units * k) k = finite negative size := by
  have hone : ofQuotient negative (size.units * k) k = ofQuotient negative size.units 1 :=
    ofQuotient_congr negative hk (by omega) (by omega)
  rw [hone]
  simp only [ofQuotient, nearestRank_units, size.rank_lt, dite_true]

/-- The sign has no part in rounding. -/
theorem ofQuotient_eq_finite_iff {negative : Bool} {num den : ℕ} {size : Magnitude} :
    ofQuotient negative num den = finite negative size ↔ nearestRank num den = size.rank := by
  unfold ofQuotient
  split
  · simp only [finite.injEq, true_and]
    exact ⟨fun h => h ▸ rfl, fun h => by cases size; simpa using h⟩
  · have := size.rank_lt
    simp only [reduceCtorEq, false_iff]
    omega

theorem nearestRank_of_two_mul_lt {num den : ℕ} (h : 2 * num < den) :
    nearestRank num den = 0 := by
  have hdiv : num / den = 0 := Nat.div_eq_of_lt (by omega)
  have hmod : num % den = num := Nat.mod_eq_of_lt (by omega)
  simp [nearestRank, roundHalfEven, hdiv, hmod, h]

theorem limit_le_nearestRank {num den n : ℕ} (hden : 0 < den) (hn : 2099 ≤ n)
    (h : 2 ^ n * den ≤ num) : Magnitude.limit ≤ nearestRank num den := by
  have hdiv : 2 ^ n ≤ num / den := (Nat.le_div_iff_mul_le hden).mpr h
  have hne : num / den ≠ 0 := by
    have := Nat.two_pow_pos n
    omega
  have hlog : n ≤ Nat.log2 (num / den) := (Nat.le_log2 hne).mpr hdiv
  simp only [nearestRank, Magnitude.limit, Nat.pow_eq]
  omega

-- The power is named before it is used: it is too large to be computed along the way.
theorem unitsPerOne_pos : 0 < unitsPerOne := by
  unfold unitsPerOne
  generalize 1074 = n
  exact Nat.two_pow_pos n

private theorem two_pow_le_ten_pow (n : ℕ) : 2 ^ (3 * n) ≤ 10 ^ n := by
  rw [Nat.pow_mul]
  exact Nat.pow_le_pow_left (by decide) n

/-- A decimal below half of the least positive number is rounded to zero. -/
theorem nearestRank_of_power_lt {digits : ℕ} {power : ℤ}
    (h : digits = 0 ∨ power < -(400 + Nat.log2 digits : ℤ)) :
    nearestRank (digits * 10 ^ power.toNat * unitsPerOne) (10 ^ (-power).toNat) = 0 := by
  apply nearestRank_of_two_mul_lt
  rcases h with rfl | h
  · simp
  · have hdigits : digits < 2 ^ (Nat.log2 digits + 1) := Nat.lt_log2_self
    have hpower : power.toNat = 0 := by omega
    rw [hpower, Nat.pow_zero, Nat.mul_one]
    have hlt : digits * unitsPerOne < 2 ^ (Nat.log2 digits + 1) * unitsPerOne :=
      Nat.mul_lt_mul_of_pos_right hdigits unitsPerOne_pos
    calc 2 * (digits * unitsPerOne)
        < 2 * (2 ^ (Nat.log2 digits + 1) * unitsPerOne) := by omega
      _ = 2 ^ (1 + (Nat.log2 digits + 1 + 1074)) := by
        unfold unitsPerOne
        generalize 1074 = n
        rw [Nat.pow_eq, Nat.pow_add 2 1, Nat.pow_add 2 (Nat.log2 digits + 1), Nat.pow_one]
      _ ≤ 2 ^ (3 * (-power).toNat) := Nat.pow_le_pow_right (by decide) (by omega)
      _ ≤ 10 ^ (-power).toNat := two_pow_le_ten_pow _

/-- A decimal with a large power is beyond the finite numbers. -/
theorem limit_le_nearestRank_of_lt_power {digits : ℕ} {power : ℤ} (hdigits : digits ≠ 0)
    (h : 400 < power) : Magnitude.limit ≤
      nearestRank (digits * 10 ^ power.toNat * unitsPerOne) (10 ^ (-power).toNat) := by
  have hlarge : 2099 ≤ 3 * power.toNat + 1074 := by omega
  apply limit_le_nearestRank (Nat.pow_pos (by decide)) hlarge
  have hneg : (-power).toNat = 0 := by omega
  have hle : 2 ^ (3 * power.toNat) ≤ digits * 10 ^ power.toNat :=
    (two_pow_le_ten_pow _).trans (Nat.le_mul_of_pos_left _ (by omega))
  rw [hneg, Nat.pow_zero, Nat.mul_one]
  unfold unitsPerOne
  generalize 1074 = n
  rw [Nat.pow_eq, Nat.pow_add]
  exact Nat.mul_le_mul_right _ hle

/-- The reading of a decimal is the rounding of its value, also where the size of
the power settles the result. -/
theorem ofDecimal_eq_ofQuotient (negative : Bool) (digits : ℕ) (power : ℤ) :
    ofDecimal negative digits power =
      ofQuotient negative (digits * 10 ^ power.toNat * unitsPerOne) (10 ^ (-power).toNat) := by
  unfold ofDecimal
  split
  case isTrue htiny => exact (ofQuotient_eq_finite_iff.mpr (nearestRank_of_power_lt htiny)).symm
  case isFalse hsize =>
    obtain ⟨hdigits, -⟩ := not_or.mp hsize
    split
    case isTrue hbig =>
      have hhuge := limit_le_nearestRank_of_lt_power hdigits hbig
      simp only [ofQuotient, Nat.not_lt.mpr hhuge, dite_false]
    case isFalse hmid =>
      split
      case isTrue hneg =>
        have hpower : power.toNat = 0 := by omega
        have habs : power.natAbs = (-power).toNat := by omega
        rw [hpower, habs, Nat.pow_eq, Nat.pow_zero, Nat.mul_one]
      case isFalse hpos =>
        have hpower : (-power).toNat = 0 := by omega
        have habs : power.natAbs = power.toNat := by omega
        rw [hpower, habs, Nat.pow_eq, Nat.pow_zero]

/-- Zeros at the end of the digits may be written into the power instead. -/
theorem ofDecimal_mul_ten_pow (negative : Bool) (digits zeros : ℕ) (power : ℤ) :
    ofDecimal negative (digits * 10 ^ zeros) power =
      ofDecimal negative digits (power + zeros) := by
  have hexponent : zeros + power.toNat + (-(power + zeros)).toNat =
      (power + zeros).toNat + (-power).toNat := by omega
  rw [ofDecimal_eq_ofQuotient, ofDecimal_eq_ofQuotient]
  apply ofQuotient_congr negative (Nat.pow_pos (by decide)) (Nat.pow_pos (by decide))
  calc digits * 10 ^ zeros * 10 ^ power.toNat * unitsPerOne * 10 ^ (-(power + zeros)).toNat
      = digits * 10 ^ (zeros + power.toNat + (-(power + zeros)).toNat) * unitsPerOne := by
        rw [Nat.pow_add, Nat.pow_add]
        ring
    _ = digits * 10 ^ (power + zeros).toNat * unitsPerOne * 10 ^ (-power).toNat := by
        rw [hexponent, Nat.pow_add]
        ring

/-- A decimal of a number is with a sign a decimal of the number with that sign. -/
theorem ofDecimal_eq_finite_iff {negative : Bool} {digits : ℕ} {power : ℤ} {size : Magnitude} :
    ofDecimal negative digits power = finite negative size ↔
      ofDecimal false digits power = finite false size := by
  rw [ofDecimal_eq_ofQuotient, ofDecimal_eq_ofQuotient, ofQuotient_eq_finite_iff,
    ofQuotient_eq_finite_iff]

end RadarQuery.Double
