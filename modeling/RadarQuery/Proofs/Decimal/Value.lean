import RadarQuery.Decimal
import RadarQuery.Proofs.Double.Value

/-!
The rational numbers that decimals stand for, and which decimals become doubles of the same
value. An integer is rounded once. With places the double is put together from the whole part
and the fraction, multiplied, rounded and divided; if the decimal is the value of a double
and short enough, none of these steps rounds.
-/

namespace RadarQuery.Decimal

open Double

def value (d : Decimal) : ℚ :=
  (d.signed d.scale : ℚ) / (10 ^ d.scale : ℕ)

/-- An integer, or digits and places that doubles hold exactly. -/
def IsShort (d : Decimal) : Prop :=
  d.scale = 0 ∨ d.mantissa < 2 ^ 52 ∧ d.scale ≤ 22

variable {d : Decimal} {digits places : ℕ}

theorem abs_value (d : Decimal) : |d.value| = (d.mantissa : ℚ) / (10 ^ d.scale : ℕ) := by
  have hsigned : |(d.signed d.scale : ℚ)| = d.mantissa := by
    cases h : d.negative <;> simp [signed, h]
  rw [value, abs_div, hsigned, Nat.abs_cast]

theorem value_eq (d : Decimal) : d.value = if d.negative then -|d.value| else |d.value| := by
  rw [abs_value]
  cases h : d.negative <;> simp [value, signed, h, neg_div]

section Places

/-- The powers of ten up to 10 ^ 22 are doubles. -/
theorem value?_ten_pow (h : places ≤ 22) :
    (ofNat (10 ^ places)).value? = some ((10 ^ places : ℕ) : ℚ) := by
  have hfive : 5 ^ places < 2 ^ 53 :=
    (Nat.pow_le_pow_right (by decide) h).trans_lt (by decide)
  exact value?_ofNat
    (representable_natCast_iff.mpr ⟨5 ^ places, places, hfive, by omega, Nat.mul_pow 5 2 places⟩)

theorem power_ten (h : places ≤ 22) : (ofNat 10).power places = ofNat (10 ^ places) := by
  have hall : ∀ places < 23, (ofNat 10).power places = ofNat (10 ^ places) := by decide +kernel
  exact hall places (by omega)

theorem div_add_mod_div (digits : ℕ) {unit : ℕ} (h : (unit : ℚ) ≠ 0) :
    ((digits / unit : ℕ) : ℚ) + ((digits % unit : ℕ) : ℚ) / unit = (digits : ℚ) / unit := by
  rw [eq_div_iff h, add_mul, div_mul_cancel₀ _ h]
  exact_mod_cast Nat.div_add_mod' digits unit

/-- Whole part and fraction of a short decimal are doubles if it is one itself, and so is
everything on the way to it. -/
theorem value?_sizeToDouble (hdigits : digits < 2 ^ 52) (hplaces : places ≤ 22)
    (h : Representable ((digits : ℚ) / (10 ^ places : ℕ))) :
    (sizeToDouble digits places).value? = some ((digits : ℚ) / (10 ^ places : ℕ)) := by
  have hunit := value?_ten_pow hplaces
  have hne : ((10 ^ places : ℕ) : ℚ) ≠ 0 := cast_pow_ne_zero (by decide) places
  simp only [sizeToDouble, Nat.pow_eq, power_ten hplaces]
  generalize 10 ^ places = unit at h hunit hne ⊢
  have hexact : ∀ n ≤ digits, (ofNat n).value? = some (n : ℚ) := fun n hn =>
    value?_ofNat (representable_natCast_of_le (hn.trans (hdigits.le.trans (by decide))))
  have hfraction : ((ofNat (digits % unit)).div (ofNat unit)).value? =
      some (((digits % unit : ℕ) : ℚ) / unit) := by
    refine value?_div (hexact _ (Nat.mod_le _ _)) hunit hne ?_
    rw [← Int.fract_div_natCast_eq_div_natCast_mod]
    exact representable_fract h (div_nonneg (Nat.cast_nonneg _) (Nat.cast_nonneg _))
  have hwhole := hexact (digits / unit) (Nat.div_le_self _ _)
  have hsplit := div_add_mod_div digits hne
  split
  case isTrue hzero =>
    rw [isZero_iff_of_value? hfraction] at hzero
    rw [hwhole, ← hsplit, hzero, add_zero]
  case isFalse =>
    have hsum := value?_add hwhole hfraction (hsplit.symm ▸ h)
    have hdigits' := hexact digits le_rfl
    rw [hsplit] at hsum
    have hproduct := value?_mul hsum hunit (by rw [div_mul_cancel₀ _ hne]; exact ⟨_, hdigits'⟩)
    rw [div_mul_cancel₀ _ hne] at hproduct
    exact value?_div (value?_round hproduct (Nat.abs_cast digits)) hunit hne h

end Places

/-- A short decimal that is the value of a double becomes this double. -/
theorem value?_toDouble (hshort : d.IsShort) (h : Representable d.value) :
    d.toDouble.value? = some d.value := by
  unfold toDouble
  split
  case isTrue hscale =>
    have hvalue : d.value = (d.signed 0 : ℤ) := by simp [value, hscale]
    rw [hvalue] at h ⊢
    exact value?_ofInt h
  case isFalse hscale =>
    obtain ⟨hmantissa, hplaces⟩ := hshort.resolve_left hscale
    have hsize := value?_sizeToDouble hmantissa hplaces (abs_value d ▸ representable_abs h)
    rw [← abs_value] at hsize
    rw [value_eq]
    split
    case isTrue => exact value?_negate hsize
    case isFalse => exact hsize

end RadarQuery.Decimal
