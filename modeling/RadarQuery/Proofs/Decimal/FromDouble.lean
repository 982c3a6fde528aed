import Mathlib.Data.Nat.Factorization.Basic
import RadarQuery.Proofs.Decimal.Value

/-!
Which decimals doubles become. A double below one is digits over a power of two; it becomes
five times the digits for each place, as long as 96 bits hold them, and digits are dropped
beyond 28 places. Whole numbers and short decimals come through unchanged, and what is at
most nine tenths of the last place becomes zero.
-/

namespace RadarQuery.Decimal

variable {negative : Bool} {mantissa count : ℕ} {power : ℤ} {size : Magnitude} {d : Decimal}

section TimesFive

/-- Zeros at the end of the binary digits are used up first. -/
theorem timesFive_mul_two_pow (zeros : ℕ) :
    timesFive (count + zeros) (mantissa * 2 ^ zeros) power =
      timesFive count mantissa (power + zeros) := by
  induction zeros generalizing power with
  | zero => simp
  | succ zeros ih =>
    have hdouble : mantissa * 2 ^ (zeros + 1) = 2 * (mantissa * 2 ^ zeros) := by ring
    have hpower : power + 1 + zeros = power + (zeros + 1 : ℕ) := by
      push_cast
      ring
    rw [← Nat.add_assoc, timesFive, hdouble, Nat.mul_mod_right, if_pos rfl,
      Nat.mul_div_cancel_left _ two_pos, ih, hpower]

theorem timesFive_two_pow (count mantissa : ℕ) :
    timesFive count (mantissa * 2 ^ count) (-count) = (mantissa, 0) := by
  have h := @timesFive_mul_two_pow mantissa 0 (-count) count
  rw [Nat.zero_add, neg_add_cancel] at h
  exact h

/-- Odd digits are multiplied as often as 96 bits hold the product. -/
theorem timesFive_of_odd (hodd : mantissa % 2 = 1) (h : mantissa * 5 ^ count < 2 ^ 96) :
    timesFive count mantissa power = (mantissa * 5 ^ count, power) := by
  induction count generalizing mantissa with
  | zero => simp [timesFive]
  | succ count ih =>
    have hproduct : 5 * mantissa * 5 ^ count = mantissa * 5 ^ (count + 1) := by ring
    have hfits : 5 * mantissa < Nat.pow 2 96 := by
      calc 5 * mantissa ≤ 5 * mantissa * 5 ^ count :=
            Nat.le_mul_of_pos_right _ (Nat.pow_pos (by decide))
        _ < 2 ^ 96 := by rwa [hproduct]
    rw [timesFive, if_neg (by omega), if_pos hfits, ih (by omega) (by rwa [hproduct]), hproduct]

/-- The digits never grow by more than the fives; they lose a bit where 96 do not hold them. -/
theorem timesFive_le (count mantissa : ℕ) (power : ℤ) :
    ∃ halved : ℕ, (timesFive count mantissa power).2 = power + halved ∧
      (timesFive count mantissa power).1 * 10 ^ halved ≤ mantissa * 5 ^ count := by
  induction count generalizing mantissa power with
  | zero => exact ⟨0, by simp [timesFive]⟩
  | succ count ih =>
    have hhalf : ∃ halved : ℕ,
        (timesFive count (mantissa / 2) (power + 1)).2 = power + halved ∧
          (timesFive count (mantissa / 2) (power + 1)).1 * 10 ^ halved ≤
            mantissa * 5 ^ (count + 1) := by
      obtain ⟨halved, hpower, hle⟩ := ih (mantissa / 2) (power + 1)
      refine ⟨halved + 1, by rw [hpower]; push_cast; ring, ?_⟩
      calc (timesFive count (mantissa / 2) (power + 1)).1 * 10 ^ (halved + 1)
          = (timesFive count (mantissa / 2) (power + 1)).1 * 10 ^ halved * 10 := by ring
        _ ≤ mantissa / 2 * 5 ^ count * 10 := Nat.mul_le_mul_right _ hle
        _ = mantissa / 2 * 2 * 5 ^ (count + 1) := by ring
        _ ≤ mantissa * 5 ^ (count + 1) := Nat.mul_le_mul_right _ (Nat.div_mul_le_self _ _)
    rw [timesFive]
    split
    case isTrue => exact hhalf
    case isFalse =>
      split
      case isTrue =>
        obtain ⟨halved, hpower, hle⟩ := ih (5 * mantissa) power
        refine ⟨halved, hpower, hle.trans (Nat.le_of_eq ?_)⟩
        ring
      case isFalse => exact hhalf

theorem timesFive_pos (h : 0 < mantissa) : 0 < (timesFive count mantissa power).1 := by
  induction count generalizing mantissa power with
  | zero => exact h
  | succ count ih =>
    rw [timesFive]
    split
    case isTrue => exact ih (by omega)
    case isFalse =>
      split
      case isTrue => exact ih (by omega)
      -- The digits are too many for a single bit to be the last.
      case isFalse hbig => exact ih (by rw [Nat.pow_eq] at hbig; omega)

end TimesFive

section OverFive

theorem overFive_pos {result : ℕ × ℤ} (h : 0 < mantissa)
    (hresult : overFive count mantissa power = some result) : 0 < result.1 := by
  induction count generalizing mantissa power with
  | zero =>
    obtain rfl := Option.some.inj hresult
    exact h
  | succ count ih =>
    rw [overFive] at hresult
    split at hresult
    case isTrue => exact ih (by omega) hresult
    case isFalse hbig =>
      split at hresult
      case isTrue => cases hresult
      case isFalse => exact ih (by rw [Nat.pow_eq] at hbig; omega) hresult

/-- A double is shifted out to its whole number or not converted at all. -/
theorem overFive_self (count mantissa : ℕ) : overFive count mantissa count = none ∨
    overFive count mantissa count = some (mantissa * 2 ^ count, 0) := by
  induction count generalizing mantissa with
  | zero => exact Or.inr (by simp [overFive])
  | succ count ih =>
    have hdouble : mantissa * 2 ^ (count + 1) = 2 * mantissa * 2 ^ count := by ring
    have hpower : ((count + 1 : ℕ) : ℤ) - 1 = count := by omega
    rw [overFive, hdouble, hpower]
    split
    case isTrue => exact ih (2 * mantissa)
    case isFalse =>
      rw [if_pos (by omega)]
      exact Or.inl rfl

end OverFive

section Digits

variable {scale : ℕ}

theorem dropDigit_pos (h : 10 ≤ mantissa) : 0 < dropDigit mantissa := by
  unfold dropDigit
  split <;> omega

theorem dropDigits_pos {result : ℕ} (h : 0 < mantissa)
    (hresult : dropDigits count mantissa = some result) : 0 < result := by
  induction count generalizing mantissa with
  | zero =>
    obtain rfl := Option.some.inj hresult
    exact h
  | succ count ih =>
    rw [dropDigits] at hresult
    split at hresult
    case isTrue => cases hresult
    case isFalse hlarge => exact ih (dropDigit_pos (Nat.not_lt.mp hlarge)) hresult

/-- At most nine tenths of what the last digit dropped stands for are not rounded up. -/
theorem dropDigits_eq_none (h : mantissa ≤ 9 * 10 ^ count) :
    dropDigits (count + 1) mantissa = none := by
  induction count generalizing mantissa with
  | zero =>
    rw [dropDigits, if_pos]
    omega
  | succ count ih =>
    have hten : 9 * 10 ^ (count + 1) = 10 * (9 * 10 ^ count) := by ring
    have hrest : dropDigit mantissa ≤ 9 * 10 ^ count := by
      rw [hten] at h
      generalize 9 * 10 ^ count = bound at h ⊢
      unfold dropDigit
      split <;> omega
    rw [dropDigits, ih hrest]
    split <;> rfl

theorem dropExcess_pos (h : 0 < mantissa) : 0 < (dropExcess scale mantissa).1 := by
  induction scale generalizing mantissa with
  | zero => exact h
  | succ scale ih =>
    rw [dropExcess]
    split
    case isTrue hlarge => exact ih (dropDigit_pos (by rw [Nat.pow_eq] at hlarge; omega))
    case isFalse => exact h

theorem dropExcess_of_lt (h : mantissa < 2 ^ 52) :
    dropExcess scale mantissa = (mantissa, scale) := by
  cases scale with
  | zero => rfl
  | succ scale => exact if_neg (Nat.not_le.mpr h)

theorem stripZeros_pos (h : 0 < mantissa) : 0 < (stripZeros scale mantissa).1 := by
  induction scale generalizing mantissa with
  | zero => exact h
  | succ scale ih =>
    rw [stripZeros]
    split
    case isTrue => exact ih (by omega)
    case isFalse => exact h

theorem stripZeros_of_odd (h : mantissa % 2 = 1) :
    stripZeros scale mantissa = (mantissa, scale) := by
  cases scale with
  | zero => rfl
  | succ scale => exact if_neg (by omega)

theorem ofParts?_eq_some_iff : ofParts? negative mantissa scale = some d ↔
    d.negative = negative ∧ d.mantissa = mantissa ∧ d.scale = scale := by
  unfold ofParts?
  split
  case isTrue h =>
    cases d
    simp only [Option.some_inj, mk.injEq]
    tauto
  case isFalse h =>
    simp only [reduceCtorEq, false_iff]
    rintro ⟨-, rfl, rfl⟩
    exact h ⟨d.mantissa_lt, d.scale_le⟩

end Digits

section Scaled

/-- Nothing but a number below the last place becomes zero. -/
theorem eq_zero_of_ofScaled (h : 0 < mantissa) (hd : ofScaled negative mantissa power = some d)
    (hzero : d.isZero) : d = zero := by
  have hmantissa : d.mantissa = 0 := by simpa [isZero] using hzero
  unfold ofScaled at hd
  split at hd
  case isTrue =>
    have hten : 0 < mantissa * Nat.pow 10 power.natAbs :=
      Nat.mul_pos h (Nat.pow_pos (by decide))
    have hd' := (ofParts?_eq_some_iff.mp hd).2.1
    omega
  case isFalse =>
    split at hd
    case h_1 => exact (Option.some.inj hd).symm
    case h_2 digits hdigits =>
      let short := dropExcess (min power.natAbs 28) digits
      have hpos : 0 < (stripZeros short.2 short.1).1 :=
        stripZeros_pos (dropExcess_pos (dropDigits_pos h hdigits))
      have hparts : d.mantissa = (stripZeros short.2 short.1).1 :=
        (ofParts?_eq_some_iff.mp hd).2.1
      omega

/-- A whole number that becomes a decimal keeps its digits. -/
theorem ofScaled_zero (hd : ofScaled negative mantissa 0 = some d) :
    d.negative = negative ∧ d.mantissa = mantissa ∧ d.scale = 0 := by
  obtain ⟨hnegative, hmantissa, hscale⟩ := ofParts?_eq_some_iff.mp hd
  exact ⟨hnegative, by simpa using hmantissa, hscale⟩

/-- Odd digits of a short decimal are all kept, with all their places. -/
theorem ofScaled_of_odd (negative : Bool) {scale : ℕ} (hodd : mantissa % 2 = 1)
    (h : mantissa < 2 ^ 52) (hpos : 0 < scale) (hscale : scale ≤ 28) :
    ∃ d, ofScaled negative mantissa (-scale) = some d ∧
      d.negative = negative ∧ d.mantissa = mantissa ∧ d.scale = scale := by
  have hparts : ofScaled negative mantissa (-scale) = ofParts? negative mantissa scale := by
    have hpower : ¬(-scale : ℤ) ≥ 0 := by omega
    have hnone : scale - 28 = 0 := by omega
    rw [ofScaled, if_neg hpower, Int.natAbs_neg, Int.natAbs_natCast, hnone, dropDigits]
    simp only [Nat.min_eq_left hscale, dropExcess_of_lt h, stripZeros_of_odd hodd]
  have hfits : mantissa < 2 ^ 96 := h.trans (by decide)
  refine ⟨⟨negative, mantissa, scale, hfits, hscale⟩, ?_, rfl, rfl, rfl⟩
  rw [hparts]
  exact ofParts?_eq_some_iff.mpr ⟨rfl, rfl, rfl⟩

/-- A number of at most nine tenths of the last place becomes zero. -/
theorem ofScaled_eq_zero {places : ℕ} (h : mantissa ≤ 9 * 10 ^ places) :
    ofScaled negative mantissa (-(places + 29 : ℕ)) = some zero := by
  have hpower : ¬(-(places + 29 : ℕ) : ℤ) ≥ 0 := by omega
  rw [ofScaled, if_neg hpower, Int.natAbs_neg, Int.natAbs_natCast, Nat.add_sub_assoc (by decide),
    dropDigits_eq_none h]

end Scaled

section Size

theorem ofSize_of_shift_lt (h : size.shift + count = 1074) (hcount : 0 < count)
    (hrank : size.rank ≠ 0) : ofSize negative size =
      ofScaled negative (timesFive count size.significand (-count)).1
        (timesFive count size.significand (-count)).2 := by
  have hexponent : (size.shift : ℤ) - 1074 = -count := by omega
  have hneg : (-count : ℤ) < 0 := by omega
  rw [ofSize, if_neg hrank, hexponent, if_pos hneg, Int.natAbs_neg, Int.natAbs_natCast]

theorem ofSize_of_le_shift (h : size.shift = count + 1074) (hrank : size.rank ≠ 0) :
    ofSize negative size = (overFive count size.significand count).bind fun result =>
      ofScaled negative result.1 result.2 := by
  have hexponent : (size.shift : ℤ) - 1074 = count := by omega
  have hneg : ¬(count : ℤ) < 0 := by omega
  rw [ofSize, if_neg hrank, hexponent, if_neg hneg, Int.natAbs_natCast]

theorem ofSize_of_rank_eq_zero (hrank : size.rank = 0) : ofSize negative size = some zero := by
  rw [ofSize, if_pos hrank]

theorem shift_cases (size : Magnitude) : (∃ count, size.shift = count + 1074) ∨
    ∃ count, 0 < count ∧ size.shift + count = 1074 := by
  rcases Nat.lt_or_ge size.shift 1074 with hlt | hle
  · exact Or.inr ⟨1074 - size.shift, by omega, by omega⟩
  · exact Or.inl (Nat.exists_eq_add_of_le' hle)

/-- The decimal zero has one form, whatever it comes from. -/
theorem eq_zero_of_ofDouble {x : Double} (h : ofDouble x = some d) (hzero : d.isZero) :
    d = zero := by
  cases x with
  | finite negative size =>
    change ofSize negative size = some d at h
    by_cases hrank : size.rank = 0
    · rw [ofSize_of_rank_eq_zero hrank] at h
      exact (Option.some.inj h).symm
    · have hdigits := Magnitude.significand_pos hrank
      rcases shift_cases size with ⟨count, hshift⟩ | ⟨count, hcount, hshift⟩
      · rw [ofSize_of_le_shift hshift hrank, Option.bind_eq_some_iff] at h
        obtain ⟨result, hresult, hd⟩ := h
        exact eq_zero_of_ofScaled (overFive_pos hdigits hresult) hd hzero
      · rw [ofSize_of_shift_lt hshift hcount hrank] at h
        exact eq_zero_of_ofScaled (timesFive_pos hdigits) h hzero
  | _ => cases h

end Size

section Exact

variable {x : Double} {q : ℚ}

/-- A whole number, or one with fewer decimal digits than doubles have. -/
def HasShortForm (q : ℚ) : Prop :=
  ∃ digits places : ℕ, |q| * (10 ^ places : ℕ) = digits ∧ (places = 0 ∨ digits < 2 ^ 52)

theorem value_eq_of_abs (hx : (Double.finite negative size).value? = some q)
    (hnegative : d.negative = negative) (habs : |d.value| = |q|) : d.value = q := by
  rw [value_eq, hnegative, habs, ← Double.eq_ite_of_value? hx]

theorem value_of_whole {n : ℕ} (hx : (Double.finite negative size).value? = some q)
    (hn : |q| = n) (hd : ofScaled negative n 0 = some d) : d.value = q ∧ d.IsShort := by
  obtain ⟨hnegative, hmantissa, hscale⟩ := ofScaled_zero hd
  refine ⟨value_eq_of_abs hx hnegative ?_, Or.inl hscale⟩
  rw [abs_value, hmantissa, hscale, hn]
  simp

/-- A decimal that is odd digits over a power of two has at least as many places. -/
theorem le_places {odd digits places : ℕ} (hodd : Odd odd)
    (h : odd * 10 ^ places = digits * 2 ^ count) : count ≤ places := by
  have hodd' : Odd (odd * 5 ^ places) := hodd.mul (Odd.pow (by decide))
  have hten : odd * 10 ^ places = odd * 5 ^ places * 2 ^ places := by
    rw [Nat.mul_assoc, ← Nat.mul_pow]
  have hdvd : 2 ^ count ∣ odd * 5 ^ places * 2 ^ places := by
    rw [← hten, h]
    exact Nat.dvd_mul_left _ _
  have hcoprime : Nat.Coprime (2 ^ count) (odd * 5 ^ places) :=
    (Nat.coprime_two_left.mpr hodd').pow_left count
  exact (Nat.pow_dvd_pow_iff_le_right (by decide)).mp (hcoprime.dvd_of_dvd_mul_left hdvd)

/-- The digits that remain when zeros at the end of the decimal are left out. -/
theorem mul_five_pow_le {odd digits places : ℕ} (hodd : Odd odd)
    (h : odd * 10 ^ places = digits * 2 ^ count) : odd * 5 ^ count ≤ digits := by
  obtain ⟨zeros, rfl⟩ := Nat.exists_eq_add_of_le' (le_places hodd h)
  have hdigits : odd * 5 ^ count * 10 ^ zeros = digits := by
    refine Nat.eq_of_mul_eq_mul_right (Nat.two_pow_pos count) ?_
    have hten : 10 ^ count = 5 ^ count * 2 ^ count := Nat.mul_pow 5 2 count
    rw [← h, Nat.pow_add, hten]
    ring
  rw [← hdigits]
  exact Nat.le_mul_of_pos_right _ (Nat.pow_pos (by decide))

/-- The places of a number whose digits are used up by them. -/
theorem le_of_mul_five_pow_lt {odd : ℕ} (hodd : Odd odd) (h : odd * 5 ^ count < 2 ^ 52) :
    count ≤ 22 := by
  by_contra hcount
  have hle : 5 ^ 23 ≤ odd * 5 ^ count :=
    (Nat.pow_le_pow_right (by decide) (by omega)).trans (Nat.le_mul_of_pos_left _ hodd.pos)
  have hlarge : 2 ^ 52 < 5 ^ 23 := by decide
  omega

theorem value_of_odd {odd : ℕ} (hx : (Double.finite negative size).value? = some q)
    (habs : |q| = (odd : ℚ) / (2 ^ count : ℕ)) (hodd : Odd odd) (hcount : 0 < count)
    (hq : HasShortForm q) (hd : ofScaled negative (timesFive count odd (-count)).1
      (timesFive count odd (-count)).2 = some d) : d.value = q ∧ d.IsShort := by
  obtain ⟨digits, places, hform, hshort⟩ := hq
  have hproduct : odd * 10 ^ places = digits * 2 ^ count := by
    have hne : ((2 ^ count : ℕ) : ℚ) ≠ 0 := Double.cast_pow_ne_zero two_pos _
    rw [habs, div_mul_eq_mul_div, div_eq_iff hne] at hform
    exact_mod_cast hform
  have hplaces := le_places hodd hproduct
  have hlt : odd * 5 ^ count < 2 ^ 52 :=
    (mul_five_pow_le hodd hproduct).trans_lt (hshort.resolve_left (by omega))
  have hle := le_of_mul_five_pow_lt hodd hlt
  rw [timesFive_of_odd (Nat.odd_iff.mp hodd) (hlt.trans (by decide))] at hd
  have hodd' : Odd (odd * 5 ^ count) := hodd.mul (Odd.pow (by decide))
  obtain ⟨d', hd', hnegative, hmantissa, hscale⟩ :=
    ofScaled_of_odd negative (Nat.odd_iff.mp hodd') hlt hcount (by omega)
  obtain rfl := Option.some.inj (hd'.symm.trans hd)
  refine ⟨value_eq_of_abs hx hnegative ?_, Or.inr ⟨by omega, by omega⟩⟩
  have hne : ((5 ^ count : ℕ) : ℚ) ≠ 0 := Double.cast_pow_ne_zero (by decide) count
  have hten : 10 ^ count = 2 ^ count * 5 ^ count := Nat.mul_pow 2 5 count
  rw [abs_value, hmantissa, hscale, habs, hten, Nat.cast_mul, Nat.cast_mul,
    mul_div_mul_right _ _ hne]

/-- Digits that are even are over a smaller power of two, or make a whole number. -/
theorem value_of_fraction (hx : (Double.finite negative size).value? = some q)
    (habs : |q| = (mantissa : ℚ) / (2 ^ count : ℕ)) (hpos : 0 < mantissa)
    (hq : HasShortForm q) (hd : ofScaled negative (timesFive count mantissa (-count)).1
      (timesFive count mantissa (-count)).2 = some d) : d.value = q ∧ d.IsShort := by
  obtain ⟨zeros, odd, hodd, hdigits⟩ := Nat.exists_eq_two_pow_mul_odd hpos.ne'
  rw [hdigits, Nat.mul_comm] at hd habs
  rcases Nat.lt_or_ge zeros count with hlt | hle
  · obtain ⟨rest, rfl⟩ := Nat.exists_eq_add_of_le' hlt.le
    have hpower : (-(rest + zeros : ℕ) : ℤ) + zeros = -rest := by omega
    have hne : ((2 ^ zeros : ℕ) : ℚ) ≠ 0 := Double.cast_pow_ne_zero two_pos _
    rw [timesFive_mul_two_pow, hpower] at hd
    rw [Nat.pow_add, Nat.cast_mul, Nat.cast_mul, mul_div_mul_right _ _ hne] at habs
    exact value_of_odd hx habs hodd (by omega) hq hd
  · obtain ⟨rest, rfl⟩ := Nat.exists_eq_add_of_le' hle
    have hne : ((2 ^ count : ℕ) : ℚ) ≠ 0 := Double.cast_pow_ne_zero two_pos _
    rw [Nat.pow_add, ← Nat.mul_assoc, timesFive_two_pow] at hd
    rw [Nat.pow_add, ← Nat.mul_assoc, Nat.cast_mul, mul_div_cancel_right₀ _ hne] at habs
    exact value_of_whole hx habs hd

/-- A number of a short form that becomes a decimal keeps its value. -/
theorem value_of_ofDouble (hx : x.value? = some q) (hq : HasShortForm q)
    (hd : ofDouble x = some d) : d.value = q ∧ d.IsShort := by
  obtain ⟨negative, size, rfl, -⟩ := Double.exists_of_value? hx
  have habs := Double.abs_of_value? hx
  change ofSize negative size = some d at hd
  by_cases hrank : size.rank = 0
  · rw [ofSize_of_rank_eq_zero hrank] at hd
    obtain rfl := Option.some.inj hd
    rw [Double.value_eq_zero_iff.mpr hrank, abs_eq_zero] at habs
    rw [habs]
    exact ⟨by simp [value, signed, zero], Or.inl rfl⟩
  · rcases shift_cases size with ⟨count, hshift⟩ | ⟨count, hcount, hshift⟩
    · rw [Double.value_of_le_shift hshift] at habs
      rw [ofSize_of_le_shift hshift hrank] at hd
      rcases overFive_self count size.significand with hnone | hsome
      · rw [hnone] at hd
        cases hd
      · rw [hsome] at hd
        exact value_of_whole hx habs hd
    · rw [Double.value_of_shift_le hshift] at habs
      rw [ofSize_of_shift_lt hshift hcount hrank] at hd
      exact value_of_fraction hx habs (Magnitude.significand_pos hrank) hq hd

theorem exists_places {places : ℕ} (hpos : 0 < mantissa)
    (h : mantissa * 10 ^ places ≤ 9 * 10 ^ count) :
    ∃ rest, count = rest + places ∧ mantissa ≤ 9 * 10 ^ rest := by
  have hpower : 10 ^ places < 10 ^ (count + 1) := by
    calc 10 ^ places ≤ mantissa * 10 ^ places := Nat.le_mul_of_pos_left _ hpos
      _ ≤ 9 * 10 ^ count := h
      _ < 10 ^ (count + 1) := by
        rw [Nat.pow_succ, Nat.mul_comm]
        exact Nat.mul_lt_mul_of_pos_left (by decide) (Nat.pow_pos (by decide))
  have hlt := (Nat.pow_lt_pow_iff_right (by decide)).mp hpower
  obtain ⟨rest, rfl⟩ := Nat.exists_eq_add_of_le' (Nat.lt_succ_iff.mp hlt)
  rw [Nat.pow_add, ← Nat.mul_assoc] at h
  exact ⟨rest, rfl, Nat.le_of_mul_le_mul_right h (Nat.pow_pos (by decide))⟩

/-- Digits over a power of two that are at most nine tenths of the last place. -/
theorem ofScaled_timesFive_eq_zero (hpos : 0 < mantissa) (h : mantissa * 10 ^ 29 ≤ 9 * 2 ^ count) :
    ofScaled negative (timesFive count mantissa (-count)).1
      (timesFive count mantissa (-count)).2 = some zero := by
  obtain ⟨halved, hhalved, hle⟩ := timesFive_le count mantissa (-count)
  have hdigits : 0 < (timesFive count mantissa (-count)).1 := timesFive_pos hpos
  rw [hhalved]
  generalize (timesFive count mantissa (-count)).1 = digits at hle hdigits ⊢
  have htotal : digits * 10 ^ (halved + 29) ≤ 9 * 10 ^ count := by
    calc digits * 10 ^ (halved + 29) = digits * 10 ^ halved * 10 ^ 29 := by ring
      _ ≤ mantissa * 5 ^ count * 10 ^ 29 := Nat.mul_le_mul_right _ hle
      _ = mantissa * 10 ^ 29 * 5 ^ count := by ring
      _ ≤ 9 * 2 ^ count * 5 ^ count := Nat.mul_le_mul_right _ h
      _ = 9 * 10 ^ count := by rw [Nat.mul_assoc, ← Nat.mul_pow]
  obtain ⟨places, rfl, hsmall⟩ := exists_places hdigits htotal
  have hplaces : (-(places + (halved + 29) : ℕ) : ℤ) + halved = -(places + 29 : ℕ) := by omega
  rw [hplaces]
  exact ofScaled_eq_zero hsmall

/-- What is at most nine tenths of the last place becomes zero. -/
theorem ofDouble_eq_zero (hx : x.value? = some q) (h : |q| ≤ 9 / (10 ^ 29 : ℕ)) :
    ofDouble x = some zero := by
  have hplace : (0 : ℚ) < (10 ^ 29 : ℕ) := Nat.cast_pos.mpr (Nat.pow_pos (by decide))
  obtain ⟨negative, size, rfl, -⟩ := Double.exists_of_value? hx
  change ofSize negative size = some zero
  rw [Double.abs_of_value? hx] at h
  by_cases hrank : size.rank = 0
  · exact ofSize_of_rank_eq_zero hrank
  · have hdigits := Magnitude.significand_pos hrank
    rcases shift_cases size with ⟨count, hshift⟩ | ⟨count, hcount, hshift⟩
    · rw [Double.value_of_le_shift hshift, le_div_iff₀ hplace] at h
      have hwhole : 0 < size.significand * 2 ^ count := Nat.mul_pos hdigits (Nat.two_pow_pos _)
      have hsmall : size.significand * 2 ^ count * 10 ^ 29 ≤ 9 := by exact_mod_cast h
      omega
    · have hpower : (0 : ℚ) < (2 ^ count : ℕ) := Nat.cast_pos.mpr (Nat.two_pow_pos _)
      rw [Double.value_of_shift_le hshift, div_le_div_iff₀ hpower hplace] at h
      rw [ofSize_of_shift_lt hshift hcount hrank]
      exact ofScaled_timesFive_eq_zero hdigits (by exact_mod_cast h)

end Exact

end RadarQuery.Decimal
