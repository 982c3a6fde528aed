import Mathlib.Data.Rat.Floor
import RadarQuery.Double.Arithmetic
import RadarQuery.Proofs.Double.Order
import RadarQuery.Proofs.Double.Range

/-!
The rational numbers that doubles stand for. Finite numbers are equal if and only if they have
the same value, and an operation whose exact result is the value of a double gives that value
without rounding. Digits of 53 places shifted within the range are such values, so all
integers up to 2 ^ 53 are.
-/

namespace RadarQuery

namespace Magnitude

variable {a b : Magnitude}

theorem rank_injective (h : a.rank = b.rank) : a = b := by
  cases a
  cases b
  cases h
  rfl

/-- Sizes with the same value are the same. -/
theorem units_injective (h : a.units = b.units) : a = b := by
  apply rank_injective
  rw [← Double.nearestRank_units a, h, Double.nearestRank_units]

theorem units_eq_zero_iff : a.units = 0 ↔ a.rank = 0 := by
  have hzero : zero.units = 0 := rfl
  constructor
  · intro h
    obtain rfl : a = zero := units_injective (h.trans hzero.symm)
    rfl
  · intro h
    obtain rfl : a = zero := rank_injective h
    rfl

theorem significand_pos (h : a.rank ≠ 0) : 0 < a.significand := by
  simp only [significand, Nat.pow_eq]
  split <;> omega

/-- With all 53 digits the rank is read off the digits and the shift. -/
theorem units_of_rank {digits shift : ℕ} (hlow : 2 ^ 52 ≤ digits) (hhigh : digits < 2 ^ 53)
    (h : a.rank = shift * 2 ^ 52 + digits) : a.units = digits * 2 ^ shift := by
  have hshift : a.shift = shift := by
    simp only [Magnitude.shift, Nat.pow_eq]
    omega
  have hdigits : a.significand = digits := by
    simp only [significand, Nat.pow_eq]
    split <;> omega
  rw [units, hshift, hdigits, Nat.pow_eq]

/-- Digits of at most 53 places make a size at every shift in range. -/
theorem exists_units {digits shift : ℕ} (hdigits : digits < 2 ^ 53) (hshift : shift ≤ 2045) :
    ∃ size : Magnitude, size.units = digits * 2 ^ shift := by
  have hlimit : limit = 2047 * 2 ^ 52 := rfl
  -- Digits with fewer places are first shifted to the left.
  induction shift generalizing digits with
  | zero =>
    refine ⟨⟨digits, by omega⟩, ?_⟩
    by_cases hfull : 2 ^ 52 ≤ digits
    · exact units_of_rank hfull hdigits (by simp)
    · have hlow : digits < Nat.pow 2 52 := Nat.not_le.mp hfull
      simp only [units, significand, Magnitude.shift, hlow, if_true, Nat.div_eq_of_lt hlow]
      rfl
  | succ shift ih =>
    by_cases hfull : 2 ^ 52 ≤ digits
    · exact ⟨⟨(shift + 1) * 2 ^ 52 + digits, by omega⟩, units_of_rank hfull hdigits rfl⟩
    · have hdouble : 2 * digits < 2 ^ 53 := by omega
      obtain ⟨size, hsize⟩ := ih hdouble (by omega)
      refine ⟨size, hsize.trans ?_⟩
      rw [Nat.pow_succ]
      ring

theorem shift_le (size : Magnitude) : size.shift ≤ 2045 := by
  have hlimit : limit = 2047 * 2 ^ 52 := rfl
  have hrank := size.rank_lt
  simp only [Magnitude.shift, Nat.pow_eq]
  omega

def value (size : Magnitude) : ℚ :=
  size.units / Double.unitsPerOne

theorem value_nonneg (size : Magnitude) : 0 ≤ size.value :=
  div_nonneg (Nat.cast_nonneg _) (Nat.cast_nonneg _)

end Magnitude

namespace Double

def value? : Double → Option ℚ
  | finite negative size => some (if negative then -size.value else size.value)
  | _ => none

def Representable (q : ℚ) : Prop :=
  ∃ x : Double, x.value? = some q

variable {x y : Double} {p q : ℚ} {negative : Bool}

-- The exponent becomes a variable before the power could be computed.
theorem unitsPerOne_eq {m n : ℕ} (h : m + n = 1074) : unitsPerOne = 2 ^ m * 2 ^ n := by
  rw [← pow_add, h]
  unfold unitsPerOne
  generalize 1074 = k
  rfl

theorem two_pow_mul_unitsPerOne (n : ℕ) : 2 ^ n * unitsPerOne = 2 ^ (n + 1074) := by
  unfold unitsPerOne
  generalize 1074 = k
  exact (pow_add 2 n k).symm

theorem unitsPerOne_ne_zero : (unitsPerOne : ℚ) ≠ 0 :=
  Nat.cast_ne_zero.mpr (Nat.ne_of_gt unitsPerOne_pos)

theorem exists_of_value? (h : x.value? = some q) :
    ∃ negative size, x = finite negative size ∧
      q = if negative then -size.value else size.value := by
  cases x with
  | finite negative size => exact ⟨negative, size, rfl, (Option.some.inj h).symm⟩
  | _ => cases h

theorem exists_value? (h : x.isFinite) : ∃ q, x.value? = some q := by
  cases x with
  | finite negative size => exact ⟨_, rfl⟩
  | _ => cases h

theorem isFinite_of_value? (h : x.value? = some q) : x.isFinite := by
  obtain ⟨negative, size, rfl, -⟩ := exists_of_value? h
  rfl

section Sign

variable {size : Magnitude}

theorem abs_of_value? (h : (finite negative size).value? = some q) : |q| = size.value := by
  obtain rfl := Option.some.inj h
  cases negative <;> simp [abs_of_nonneg size.value_nonneg]

theorem eq_ite_of_value? (h : (finite negative size).value? = some q) :
    q = if negative then -|q| else |q| := by
  rw [abs_of_value? h]
  exact (Option.some.inj h).symm

theorem negative_iff_of_value? (h : (finite negative size).value? = some q) (hq : q ≠ 0) :
    negative ↔ q < 0 := by
  have hpos : 0 < |q| := abs_pos.mpr hq
  have heq := eq_ite_of_value? h
  cases negative with
  | true =>
    rw [if_pos rfl] at heq
    exact iff_of_true rfl (heq ▸ neg_neg_of_pos hpos)
  | false =>
    rw [if_neg Bool.false_ne_true] at heq
    exact iff_of_false Bool.false_ne_true (not_lt.mpr (heq ▸ hpos.le))

/-- A size with a sign is a number of this value. -/
theorem value?_finite (habs : |q| = size.value) (hsign : q ≠ 0 → (negative ↔ q < 0)) :
    (finite negative size).value? = some q := by
  have hvalue : (if negative then -size.value else size.value) = q := by
    rw [← habs]
    by_cases hq : q = 0
    · simp [hq]
    · cases negative with
      | true => rw [if_pos rfl, abs_of_neg ((hsign hq).mp rfl), neg_neg]
      | false =>
        have hnonneg : ¬q < 0 := fun hneg => Bool.false_ne_true ((hsign hq).mpr hneg)
        rw [if_neg Bool.false_ne_true, abs_of_nonneg (not_lt.mp hnonneg)]
  exact congrArg some hvalue

theorem value?_negate (h : x.value? = some q) : x.negate.value? = some (-q) := by
  obtain ⟨negative, size, rfl, rfl⟩ := exists_of_value? h
  refine congrArg some ?_
  cases negative <;> simp

theorem value?_zero : zero.value? = some 0 := by
  have hvalue : Magnitude.zero.value = 0 := zero_div _
  exact congrArg some hvalue

end Sign

section Units

variable {size : Magnitude} {count : ℕ}

theorem cast_pow_ne_zero {base : ℕ} (hbase : 0 < base) (n : ℕ) : ((base ^ n : ℕ) : ℚ) ≠ 0 :=
  Nat.cast_ne_zero.mpr (Nat.pow_pos hbase).ne'

/-- Digits that are shifted less than one is are a fraction. -/
theorem value_of_shift_le (h : size.shift + count = 1074) :
    size.value = (size.significand : ℚ) / (2 ^ count : ℕ) := by
  have hne : ((2 ^ size.shift : ℕ) : ℚ) ≠ 0 := cast_pow_ne_zero two_pos _
  rw [Magnitude.value, unitsPerOne_eq h, Magnitude.units, Nat.pow_eq, Nat.cast_mul, Nat.cast_mul,
    mul_comm, mul_div_mul_left _ _ hne]

theorem value_of_le_shift (h : size.shift = count + 1074) :
    size.value = (size.significand * 2 ^ count : ℕ) := by
  rw [Magnitude.value, Magnitude.units, h, Nat.pow_eq, ← two_pow_mul_unitsPerOne,
    ← Nat.mul_assoc, Nat.cast_mul _ unitsPerOne, mul_div_cancel_right₀ _ unitsPerOne_ne_zero]

theorem value_eq_natCast_iff {n : ℕ} : size.value = n ↔ size.units = n * unitsPerOne := by
  rw [Magnitude.value, div_eq_iff unitsPerOne_ne_zero]
  exact_mod_cast Iff.rfl

theorem value_eq_zero_iff : size.value = 0 ↔ size.rank = 0 := by
  rw [← Nat.cast_zero, value_eq_natCast_iff, Nat.zero_mul, Magnitude.units_eq_zero_iff]

theorem signedUnits_div (negative : Bool) (size : Magnitude) :
    (signedUnits negative size : ℚ) / unitsPerOne =
      if negative then -size.value else size.value := by
  cases negative with
  | true =>
    have hunits : signedUnits true size = -(size.units : ℤ) := rfl
    rw [hunits, Int.cast_neg, neg_div]
    rfl
  | false => rfl

end Units

section Equality

theorem signedUnits_eq_iff {m n : Bool} {a b : Magnitude} :
    signedUnits m a = signedUnits n b ↔ (finite m a).place = (finite n b).place := by
  have hab : a.units = b.units ↔ a.rank = b.rank :=
    ⟨fun h => congrArg _ (Magnitude.units_injective h),
      fun h => congrArg _ (Magnitude.rank_injective h)⟩
  have ha : a.units = 0 ↔ a.rank = 0 := Magnitude.units_eq_zero_iff
  have hb : b.units = 0 ↔ b.rank = 0 := Magnitude.units_eq_zero_iff
  simp only [signedUnits, place, Option.some.injEq]
  cases m <;> cases n <;> simp only [if_true, Bool.false_eq_true, if_false] <;> omega

/-- Finite numbers are equal if they stand for the same rational number. -/
theorem equals_iff_of_value? (hx : x.value? = some p) (hy : y.value? = some q) :
    x.equals y ↔ p = q := by
  obtain ⟨m, a, rfl, rfl⟩ := exists_of_value? hx
  obtain ⟨n, b, rfl, rfl⟩ := exists_of_value? hy
  rw [← signedUnits_div, ← signedUnits_div, div_left_inj' unitsPerOne_ne_zero, Int.cast_inj,
    signedUnits_eq_iff, equals_iff]
  constructor
  · rintro ⟨place, ha, hb⟩
    rw [ha, hb]
  · intro h
    exact ⟨_, h, rfl⟩

theorem isZero_iff_of_value? (hx : x.value? = some q) : x.isZero ↔ q = 0 :=
  equals_iff_of_value? hx value?_zero

end Equality

section Representable

theorem representable_neg (h : Representable q) : Representable (-q) := by
  obtain ⟨x, hx⟩ := h
  exact ⟨x.negate, value?_negate hx⟩

theorem representable_abs (h : Representable q) : Representable |q| := by
  rcases abs_choice q with hq | hq
  · rw [hq]
    exact h
  · rw [hq]
    exact representable_neg h

theorem representable_value (size : Magnitude) : Representable size.value :=
  ⟨finite false size, rfl⟩

/-- The whole numbers among them have at most 53 binary digits, zeros at the end aside. -/
theorem representable_natCast_iff {n : ℕ} :
    Representable n ↔ ∃ digits shift, digits < 2 ^ 53 ∧ shift ≤ 971 ∧ n = digits * 2 ^ shift := by
  constructor
  · rintro ⟨x, hx⟩
    obtain ⟨negative, size, rfl, -⟩ := exists_of_value? hx
    have hunits : size.significand * 2 ^ size.shift = n * unitsPerOne :=
      value_eq_natCast_iff.mp ((abs_of_value? hx).symm.trans (Nat.abs_cast n))
    have hdigits := significand_lt size
    have hshift := size.shift_le
    rcases Nat.le_total 1074 size.shift with hle | hle
    · obtain ⟨shift, heq⟩ := Nat.exists_eq_add_of_le' hle
      rw [heq, ← two_pow_mul_unitsPerOne, ← Nat.mul_assoc] at hunits
      exact ⟨size.significand, shift, hdigits, by omega,
        (Nat.eq_of_mul_eq_mul_right unitsPerOne_pos hunits).symm⟩
    · obtain ⟨rest, heq⟩ := Nat.exists_eq_add_of_le' hle
      rw [unitsPerOne_eq heq.symm, ← Nat.mul_assoc] at hunits
      have hn : n * 2 ^ rest = size.significand :=
        (Nat.eq_of_mul_eq_mul_right (Nat.two_pow_pos _) hunits).symm
      have hle : n ≤ n * 2 ^ rest := Nat.le_mul_of_pos_right n (Nat.two_pow_pos _)
      exact ⟨n, 0, by omega, Nat.zero_le _, by simp⟩
  · rintro ⟨digits, shift, hdigits, hshift, rfl⟩
    obtain ⟨size, hsize⟩ := Magnitude.exists_units hdigits (Nat.add_le_add_right hshift 1074)
    rw [← two_pow_mul_unitsPerOne, ← Nat.mul_assoc] at hsize
    rw [← value_eq_natCast_iff.mpr hsize]
    exact representable_value size

theorem representable_natCast_of_le {n : ℕ} (hn : n ≤ 2 ^ 53) : Representable n := by
  rw [representable_natCast_iff]
  rcases Nat.lt_or_eq_of_le hn with hlt | rfl
  · exact ⟨n, 0, hlt, Nat.zero_le _, (Nat.mul_one n).symm⟩
  · exact ⟨2 ^ 52, 1, by decide, by decide, by decide⟩

/-- The places behind the point alone. -/
theorem representable_fract (h : Representable q) (hq : 0 ≤ q) : Representable (Int.fract q) := by
  obtain ⟨x, hx⟩ := h
  obtain ⟨negative, size, rfl, -⟩ := exists_of_value? hx
  have hvalue : q = size.units / unitsPerOne := by
    rw [← abs_of_nonneg hq]
    exact abs_of_value? hx
  rw [hvalue, Int.fract_div_natCast_eq_div_natCast_mod]
  rcases Nat.le_total 1074 size.shift with hle | hle
  · obtain ⟨shift, heq⟩ := Nat.exists_eq_add_of_le' hle
    have hwhole : size.units % unitsPerOne = 0 := by
      rw [Magnitude.units, heq, Nat.pow_eq, ← two_pow_mul_unitsPerOne, ← Nat.mul_assoc,
        Nat.mul_mod_left]
    rw [hwhole, Nat.cast_zero, zero_div]
    exact ⟨zero, value?_zero⟩
  · obtain ⟨rest, heq⟩ := Nat.exists_eq_add_of_le' hle
    have hdigits : size.significand % 2 ^ rest < 2 ^ 53 :=
      (Nat.mod_le _ _).trans_lt (significand_lt size)
    obtain ⟨part, hpart⟩ := Magnitude.exists_units hdigits size.shift_le
    have hunits : size.units % unitsPerOne = part.units := by
      rw [hpart, unitsPerOne_eq heq.symm, Magnitude.units, Nat.pow_eq, Nat.mul_mod_mul_right]
    rw [hunits]
    exact representable_value part

theorem representable_intCast_iff {n : ℤ} : Representable n ↔ Representable (n.natAbs : ℚ) := by
  rw [Nat.cast_natAbs, Int.cast_abs]
  refine ⟨representable_abs, fun h => ?_⟩
  rcases abs_choice (n : ℚ) with hn | hn
  · rwa [hn] at h
  · have hneg := representable_neg h
    rwa [hn, neg_neg] at hneg

end Representable

section Exact

/-- A quotient that is the value of a double is rounded to just that value. The sign is given
apart from it, and zero may have either. -/
theorem value?_ofQuotient {num den : ℕ} (hden : 0 < den) (h : Representable q)
    (habs : |q| = (num : ℚ) / (den * unitsPerOne)) (hsign : q ≠ 0 → (negative ↔ q < 0)) :
    (ofQuotient negative num den).value? = some q := by
  obtain ⟨x, hx⟩ := representable_abs h
  obtain ⟨m, size, rfl, -⟩ := exists_of_value? hx
  have hden' : (den : ℚ) ≠ 0 := Nat.cast_ne_zero.mpr (Nat.ne_of_gt hden)
  have hvalue : |q| = size.value := (abs_abs q).symm.trans (abs_of_value? hx)
  have hnum : size.units * den = num := by
    rw [habs, Magnitude.value, div_mul_eq_div_div, div_left_inj' unitsPerOne_ne_zero,
      div_eq_iff hden'] at hvalue
    exact_mod_cast hvalue.symm
  rw [← hnum, ofQuotient_units negative size hden]
  exact value?_finite hvalue hsign

theorem value?_ofInt {n : ℤ} (h : Representable n) : (ofInt n).value? = some (n : ℚ) := by
  refine value?_ofQuotient Nat.one_pos h ?_ fun _ => ?_
  · rw [Nat.cast_mul, Nat.cast_one, one_mul, mul_div_cancel_right₀ _ unitsPerOne_ne_zero,
      Nat.cast_natAbs, Int.cast_abs]
  · rw [decide_eq_true_iff, Int.cast_lt_zero]

theorem value?_ofNat {n : ℕ} (h : Representable n) : (ofNat n).value? = some (n : ℚ) := by
  refine value?_ofQuotient Nat.one_pos h ?_ fun _ => ?_
  · rw [Nat.cast_mul, Nat.cast_one, one_mul, mul_div_cancel_right₀ _ unitsPerOne_ne_zero,
      Nat.abs_cast]
  · simp

theorem value?_add (hx : x.value? = some p) (hy : y.value? = some q)
    (h : Representable (p + q)) : (x.add y).value? = some (p + q) := by
  obtain ⟨m, a, rfl, rfl⟩ := exists_of_value? hx
  obtain ⟨n, b, rfl, rfl⟩ := exists_of_value? hy
  have hsum : (if m then -a.value else a.value) + (if n then -b.value else b.value) =
      ((signedUnits m a + signedUnits n b : ℤ) : ℚ) / unitsPerOne := by
    rw [Int.cast_add, add_div, signedUnits_div, signedUnits_div]
  have hpos : (0 : ℚ) < unitsPerOne := Nat.cast_pos.mpr unitsPerOne_pos
  rw [hsum] at h ⊢
  refine value?_ofQuotient Nat.one_pos h ?_ fun hne => ?_
  · rw [Nat.cast_one, one_mul, abs_div, Nat.abs_cast, Nat.cast_natAbs, Int.cast_abs]
  · have hne' : signedUnits m a + signedUnits n b ≠ 0 := by
      intro hzero
      rw [hzero, Int.cast_zero, zero_div] at hne
      exact hne rfl
    rw [if_neg hne', decide_eq_true_iff, div_lt_iff₀ hpos, zero_mul, Int.cast_lt_zero]

/-- The sign of a product, and of a quotient. -/
theorem xor_iff_mul_neg {m n : Bool} (hp : m ↔ p < 0) (hq : n ↔ q < 0) (h : p * q ≠ 0) :
    (m ^^ n) ↔ p * q < 0 := by
  obtain ⟨hp', hq'⟩ := mul_ne_zero_iff.mp h
  rw [mul_neg_iff, ← hp, ← hq, lt_iff_not_ge, lt_iff_not_ge, le_iff_lt_or_eq, le_iff_lt_or_eq,
    ← hp, ← hq]
  cases m <;> cases n <;> simp [hp', hq']

theorem value?_mul (hx : x.value? = some p) (hy : y.value? = some q)
    (h : Representable (p * q)) : (x.mul y).value? = some (p * q) := by
  obtain ⟨m, a, rfl, -⟩ := exists_of_value? hx
  obtain ⟨n, b, rfl, -⟩ := exists_of_value? hy
  refine value?_ofQuotient unitsPerOne_pos h ?_ fun hne => ?_
  · rw [abs_mul, abs_of_value? hx, abs_of_value? hy, Magnitude.value, Magnitude.value,
      Nat.cast_mul, div_mul_div_comm]
  · obtain ⟨hp, hq⟩ := mul_ne_zero_iff.mp hne
    exact xor_iff_mul_neg (negative_iff_of_value? hx hp) (negative_iff_of_value? hy hq) hne

theorem value?_div (hx : x.value? = some p) (hy : y.value? = some q) (hq : q ≠ 0)
    (h : Representable (p / q)) : (x.div y).value? = some (p / q) := by
  obtain ⟨m, a, rfl, -⟩ := exists_of_value? hx
  obtain ⟨n, b, rfl, -⟩ := exists_of_value? hy
  have hrank : b.rank ≠ 0 := by
    rwa [Ne, ← value_eq_zero_iff, ← abs_of_value? hy, abs_eq_zero]
  have hunits : 0 < b.units := Nat.pos_of_ne_zero (Magnitude.units_eq_zero_iff.not.mpr hrank)
  simp only [div, hrank, if_false]
  refine value?_ofQuotient hunits h ?_ fun hne => ?_
  · rw [abs_div, abs_of_value? hx, abs_of_value? hy, Magnitude.value, Magnitude.value,
      div_div_div_cancel_right₀ unitsPerOne_ne_zero, Nat.cast_mul,
      mul_div_mul_right _ _ unitsPerOne_ne_zero]
  · have hp : p ≠ 0 := (div_ne_zero_iff.mp hne).1
    rw [div_eq_mul_inv] at hne ⊢
    refine xor_iff_mul_neg (negative_iff_of_value? hx hp) ?_ hne
    rw [inv_lt_zero]
    exact negative_iff_of_value? hy hq

theorem two_mul_add_div (n : ℕ) {k : ℕ} (hk : 0 < k) : (2 * (n * k) + k) / (2 * k) = n := by
  have hsum : 2 * (n * k) + k = k + 2 * k * n := by ring
  have hhalf : k < 2 * k := by omega
  rw [hsum, Nat.add_mul_div_left _ _ (Nat.zero_lt_of_lt hhalf), Nat.div_eq_of_lt hhalf, zero_add]

/-- A whole number is its own nearest one. -/
theorem value?_round {n : ℕ} (hx : x.value? = some q) (hn : |q| = n) :
    x.round.value? = some q := by
  obtain ⟨m, a, rfl, -⟩ := exists_of_value? hx
  have hunits : a.units = n * unitsPerOne :=
    value_eq_natCast_iff.mp ((abs_of_value? hx).symm.trans hn)
  have hwhole : (2 * a.units + unitsPerOne) / (2 * unitsPerOne) = n := by
    rw [hunits]
    exact two_mul_add_div n unitsPerOne_pos
  simp only [round, hwhole, ← hunits]
  refine value?_ofQuotient Nat.one_pos ⟨_, hx⟩ ?_ (negative_iff_of_value? hx)
  rw [abs_of_value? hx, Nat.cast_one, one_mul, Magnitude.value]

end Exact

end Double

end RadarQuery
