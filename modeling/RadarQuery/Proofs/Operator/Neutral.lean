import RadarQuery.Operator.Arithmetic
import RadarQuery.Proofs.Decimal.FromDouble
import RadarQuery.Proofs.Double.Zero

/-!
Zero and one beside a float. Adding or taking away the integer zero, multiplying or dividing
by the integer one, all give one and the same number: the float as it comes back from the
decimals, or the float itself where it has no decimal. Whole numbers and short decimals come
back as they were. What is at most nine tenths of the last decimal place comes back as zero.
-/

namespace RadarQuery

namespace Decimal

variable {d : Decimal}

theorem add_zero (d : Decimal) : d.add (ofInteger 0) = some d :=
  if_pos rfl

theorem sub_zero (d : Decimal) : d.sub (ofInteger 0) = some d := by
  unfold sub add
  exact if_pos rfl

theorem zero_add (h : d.isZero → d = zero) : (ofInteger 0).add d = some d := by
  unfold add
  split
  case isTrue hzero =>
    rw [h hzero]
    rfl
  case isFalse => exact if_pos rfl

/-- The digits of a decimal fit without any being dropped. -/
theorem fit_self (d : Decimal) : fit d.negative d.mantissa d.scale = some d := by
  have hkept : ofParts? d.negative (Double.roundHalfEven d.mantissa (Nat.pow 10 0)) (d.scale - 0) =
      some d := by
    rw [Nat.pow_eq, Nat.pow_zero, Double.roundHalfEven_one]
    exact ofParts?_eq_some_iff.mpr ⟨rfl, rfl, rfl⟩
  rw [fit, List.range_succ_eq_map, List.findSome?_cons, hkept]

theorem one_mul (h : d.isZero → d = zero) : (ofInteger 1).mul d = some d := by
  have hone : (ofInteger 1).isZero = false := rfl
  have hdigits : (ofInteger 1).mantissa * d.mantissa = d.mantissa := Nat.one_mul _
  have hplaces : (ofInteger 1).scale + d.scale = d.scale := Nat.zero_add _
  have hsign : ((ofInteger 1).negative ^^ d.negative) = d.negative := Bool.false_xor _
  rw [mul, hone, Bool.false_or, hdigits, hplaces, hsign, fit_self]
  split
  case isTrue hzero => rw [h hzero]
  case isFalse => rfl

theorem mul_comm (a b : Decimal) : a.mul b = b.mul a := by
  rw [mul, mul, Bool.or_comm, Bool.xor_comm, Nat.mul_comm, Nat.add_comm]

theorem mul_one (h : d.isZero → d = zero) : d.mul (ofInteger 1) = some d := by
  rw [mul_comm, one_mul h]

theorem quotientAt_one (d : Decimal) : quotientAt d (ofInteger 1) d.scale = d.mantissa := by
  have hpos : 0 < Nat.pow 10 d.scale := Nat.pow_pos (by decide)
  have hround := Double.roundHalfEven_mul_right d.mantissa 1 hpos
  rw [Double.roundHalfEven_one] at hround
  exact hround

/-- The search for the most places passes none that would do. -/
theorem le_find?_reverse_range {p : ℕ → Bool} {n k : ℕ} (hk : k < n) (hp : p k) :
    ∃ most, (List.range n).reverse.find? p = some most ∧ k ≤ most := by
  induction n with
  | zero => omega
  | succ n ih =>
    rw [List.range_succ, List.reverse_append, List.reverse_singleton, List.singleton_append,
      List.find?_cons]
    split
    case h_1 => exact ⟨n, rfl, by omega⟩
    case h_2 hn =>
      have hne : k ≠ n := by
        rintro rfl
        rw [hp] at hn
        cases hn
      exact ih (by omega)

/-- Division by one comes out even at once, in the places that there are. -/
theorem quotientPlaces_one (d : Decimal) : quotientPlaces d (ofInteger 1) = some d.scale := by
  have hfits : decide (quotientAt d (ofInteger 1) d.scale < Nat.pow 2 96) = true := by
    rw [quotientAt_one]
    exact decide_eq_true d.mantissa_lt
  obtain ⟨most, hmost, hle⟩ := le_find?_reverse_range (p := fun scale =>
    quotientAt d (ofInteger 1) scale < Nat.pow 2 96) (Nat.lt_succ_of_le d.scale_le) hfits
  have heven : evenAfter d (ofInteger 1) = some 0 := by
    refine List.find?_cons_of_pos (decide_eq_true ?_)
    exact Nat.mod_one _
  have hplaces : ((d.scale : ℤ) - (ofInteger 1).scale + 9 * (0 : ℕ)).toNat = d.scale := by
    have hscale : (ofInteger 1).scale = 0 := rfl
    omega
  rw [quotientPlaces, mostPlaces, hmost, Option.map_some, heven]
  simp only [hplaces, Nat.min_eq_right hle]

theorem div_one (h : d.isZero → d = zero) : d.div (ofInteger 1) = some d := by
  have hone : (ofInteger 1).isZero = false := rfl
  have hwhole : d.mantissa % (ofInteger 1).mantissa = 0 := Nat.mod_one _
  have hsign : (d.negative ^^ (ofInteger 1).negative) = d.negative := Bool.xor_false _
  rw [div, hone, if_neg Bool.false_ne_true]
  by_cases hzero : d.isZero
  · rw [if_pos hzero, h hzero]
  · rw [if_neg hzero, quotientPlaces_one, Option.bind_some, if_pos hwhole, quotientAt_one, hsign]
    exact ofParts?_eq_some_iff.mpr ⟨rfl, rfl, rfl⟩

end Decimal

namespace Double

variable {m : Bool} {size : Magnitude}

theorem add_finite_zero (n : Bool) (h : size.rank ≠ 0) :
    (finite m size).add (finite n .zero) = finite m size := by
  have hzero : signedUnits n .zero = 0 := by cases n <;> rfl
  have hunits : size.units ≠ 0 := Magnitude.units_eq_zero_iff.not.mpr h
  have hne : signedUnits m size ≠ 0 := by cases m <;> simpa [signedUnits] using hunits
  have habs : (signedUnits m size).natAbs = size.units * 1 := by
    cases m <;> simp [signedUnits]
  have hsign : decide (signedUnits m size < 0) = m := by
    cases m <;> simp [signedUnits]; omega
  rw [add, hzero, Int.add_zero, if_neg hne, habs, hsign, ofQuotient_units m size Nat.one_pos]

theorem add_comm_finite (m n : Bool) (a b : Magnitude) :
    (finite m a).add (finite n b) = (finite n b).add (finite m a) := by
  rw [add, add, Int.add_comm, Bool.and_comm]

theorem exists_ofInt_one : ∃ one, ofInt 1 = finite false one ∧ one.units = unitsPerOne := by
  obtain ⟨x, hx⟩ : Representable ((1 : ℕ) : ℚ) := representable_natCast_of_le (by decide)
  obtain ⟨negative, one, rfl, -⟩ := exists_of_value? hx
  have hunits : one.units = 1 * unitsPerOne :=
    value_eq_natCast_iff.mp ((abs_of_value? hx).symm.trans (Nat.abs_cast 1))
  rw [Nat.one_mul] at hunits
  refine ⟨one, ?_, hunits⟩
  rw [ofInt, ← hunits, Int.natAbs_one, Nat.one_mul, ← Nat.mul_one one.units]
  exact ofQuotient_units false one Nat.one_pos

theorem finite_mul_one : (finite m size).mul (ofInt 1) = finite m size := by
  obtain ⟨one, hone, hunits⟩ := exists_ofInt_one
  rw [hone, mul, hunits, Bool.xor_false, ofQuotient_units m size unitsPerOne_pos]

theorem one_mul_finite : (ofInt 1).mul (finite m size) = finite m size := by
  obtain ⟨one, hone, hunits⟩ := exists_ofInt_one
  rw [hone, mul, hunits, Nat.mul_comm, Bool.false_xor, ofQuotient_units m size unitsPerOne_pos]

theorem finite_div_one : (finite m size).div (ofInt 1) = finite m size := by
  obtain ⟨one, hone, hunits⟩ := exists_ofInt_one
  have hrank : one.rank ≠ 0 := by
    rw [← Magnitude.units_eq_zero_iff.ne, hunits]
    exact unitsPerOne_pos.ne'
  rw [hone, div, if_neg hrank, hunits, Bool.xor_false, ofQuotient_units m size unitsPerOne_pos]

/-- The number as it comes back from the decimals, if it has one. -/
def viaDecimal (x : Double) : Double :=
  match Decimal.ofDouble x with
  | some d => d.toDouble
  | none => x

section ViaDecimal

variable {x : Double} {q : ℚ}

theorem viaDecimal_equals (hx : x.value? = some q) (hq : Decimal.HasShortForm q) :
    x.viaDecimal.equals x := by
  have hself : x.equals x := (equals_iff_of_value? hx hx).mpr rfl
  unfold viaDecimal
  split
  case h_1 d hd =>
    obtain ⟨hvalue, hshort⟩ := Decimal.value_of_ofDouble hx hq hd
    have hdouble := Decimal.value?_toDouble hshort ⟨x, hvalue ▸ hx⟩
    rw [equals_iff_of_value? hdouble hx, hvalue]
  case h_2 => exact hself

theorem viaDecimal_eq_zero (hx : x.value? = some q) (h : |q| ≤ 9 / (10 ^ 29 : ℕ)) :
    x.viaDecimal = zero := by
  have hsigned : Decimal.zero.signed 0 = 0 := rfl
  have hzero : Decimal.zero.toDouble = ofInt (Decimal.zero.signed 0) := if_pos rfl
  rw [viaDecimal, Decimal.ofDouble_eq_zero hx h]
  exact hzero.trans (hsigned ▸ ofInt_zero)

end ViaDecimal

end Double

namespace Arithmetic

open RadarQuery.Expr

def neutralResults (x : Double) : List (Except EvalError Expr) :=
  [add.apply (integer 0) (float x), add.apply (float x) (integer 0),
    subtract.apply (float x) (integer 0), multiply.apply (integer 1) (float x),
    multiply.apply (float x) (integer 1), divide.apply (float x) (integer 1)]

section Mixed

variable {operation : Arithmetic} {n : Int64} {x : Double}

/-- An operation that gives back the decimal of a float, or the float if it has none. -/
theorem apply_integer_float (hoperation : operation ≠ divide)
    (hsome : ∀ d, Decimal.ofDouble x = some d → operation.onDecimals (.ofInteger n) d = some d)
    (hnone : Decimal.ofDouble x = none → operation.onDoubles (.ofInt n.toInt) x = x) :
    operation.apply (integer n) (float x) = .ok (.float x.viaDecimal) := by
  have hdivide : ¬(operation = divide ∧ x.isZero) := fun hboth => hoperation hboth.1
  change operation.mixed _ (Decimal.ofDouble x) _ _ = _
  unfold mixed Double.viaDecimal floats
  rw [if_neg hdivide, if_neg hdivide]
  cases h : Decimal.ofDouble x with
  | none => exact congrArg (fun y => Except.ok (Expr.float y)) (hnone h)
  | some d => simp only [hsome d h]

theorem apply_float_integer (hdivisor : operation = divide → ¬(Double.ofInt n.toInt).isZero)
    (hsome : ∀ d, Decimal.ofDouble x = some d → operation.onDecimals d (.ofInteger n) = some d)
    (hnone : Decimal.ofDouble x = none → operation.onDoubles x (.ofInt n.toInt) = x) :
    operation.apply (float x) (integer n) = .ok (.float x.viaDecimal) := by
  have hdivide : ¬(operation = divide ∧ (Double.ofInt n.toInt).isZero) :=
    fun hboth => hdivisor hboth.1 hboth.2
  change operation.mixed (Decimal.ofDouble x) _ _ _ = _
  unfold mixed Double.viaDecimal floats
  rw [if_neg hdivide, if_neg hdivide]
  cases h : Decimal.ofDouble x with
  | none => exact congrArg (fun y => Except.ok (Expr.float y)) (hnone h)
  | some d => simp only [hsome d h]

end Mixed

theorem rank_ne_zero_of_ofDouble {m : Bool} {size : Magnitude}
    (h : Decimal.ofDouble (.finite m size) = none) : size.rank ≠ 0 := by
  intro hrank
  change Decimal.ofSize m size = none at h
  rw [Decimal.ofSize_of_rank_eq_zero hrank] at h
  cases h

/-- All six calculations give the float as it comes back from the decimals. -/
theorem neutralResults_eq {x : Double} (hx : x.isFinite) :
    ∀ r ∈ neutralResults x, r = .ok (.float x.viaDecimal) := by
  have hzero : (0 : Int64).toInt = 0 := rfl
  have hone : (1 : Int64).toInt = 1 := rfl
  have hdivisor : ¬(Double.ofInt (1 : Int64).toInt).isZero := by
    rw [hone, Double.isZero_ofInt_iff]
    decide
  have hzeros : ∀ d, Decimal.ofDouble x = some d → d.isZero → d = .zero :=
    fun d => Decimal.eq_zero_of_ofDouble
  cases x with
  | finite m size =>
    simp only [neutralResults, List.forall_mem_cons]
    refine ⟨?_, ?_, ?_, ?_, ?_, ?_, List.forall_mem_nil _⟩
    · refine apply_integer_float (by decide) (fun d h => Decimal.zero_add (hzeros d h)) fun h => ?_
      rw [onDoubles, hzero, Double.ofInt_zero, Double.add_comm_finite,
        Double.add_finite_zero _ (rank_ne_zero_of_ofDouble h)]
    · refine apply_float_integer (by decide) (fun d _ => Decimal.add_zero d) fun h => ?_
      rw [onDoubles, hzero, Double.ofInt_zero,
        Double.add_finite_zero _ (rank_ne_zero_of_ofDouble h)]
    · refine apply_float_integer (by decide) (fun d _ => Decimal.sub_zero d) fun h => ?_
      rw [onDoubles, hzero, Double.ofInt_zero, Double.sub, Double.negate,
        Double.add_finite_zero _ (rank_ne_zero_of_ofDouble h)]
    · refine apply_integer_float (by decide) (fun d h => Decimal.one_mul (hzeros d h)) fun _ => ?_
      rw [onDoubles, hone, Double.one_mul_finite]
    · refine apply_float_integer (by decide) (fun d h => Decimal.mul_one (hzeros d h)) fun _ => ?_
      rw [onDoubles, hone, Double.finite_mul_one]
    · refine apply_float_integer (fun _ => hdivisor) (fun d h => Decimal.div_one (hzeros d h))
        fun _ => ?_
      rw [onDoubles, hone, Double.finite_div_one]
  | _ => cases hx

/-- The six calculations give one float, which is the operand again if this is a whole number
or a short decimal, or has no decimal; it is zero if the operand is at most nine tenths of
the last decimal place, and then equal to the operand only if this is zero too. -/
theorem neutralResults_spec {x : Double} {q : ℚ} (hx : x.value? = some q) :
    ∃ y, (∀ r ∈ neutralResults x, r = .ok (.float y)) ∧
      (Decimal.HasShortForm q → y.equals x) ∧ (Decimal.ofDouble x = none → y = x) ∧
      (|q| ≤ 9 / (10 ^ 29 : ℕ) → y = .zero ∧ (y.equals x ↔ q = 0)) := by
  refine ⟨x.viaDecimal, neutralResults_eq (Double.isFinite_of_value? hx),
    Double.viaDecimal_equals hx, fun hnone => ?_, fun hsmall => ?_⟩
  · rw [Double.viaDecimal, hnone]
  · rw [Double.viaDecimal_eq_zero hx hsmall, Double.equals_iff_of_value? Double.value?_zero hx]
    exact ⟨rfl, eq_comm⟩

/-- Seven is itself again beside zero and one, and the least positive float is not. -/
theorem neutralResults_spec_seven_least :
    (∃ y, (∀ r ∈ neutralResults (.ofInt 7), r = .ok (.float y)) ∧ y.equals (.ofInt 7)) ∧
    ∃ y, (∀ r ∈ neutralResults (.finite false ⟨1, by decide⟩), r = .ok (.float y)) ∧
      ¬y.equals (.finite false ⟨1, by decide⟩) := by
  have hseven : (Double.ofInt 7).value? = some ((7 : ℤ) : ℚ) :=
    Double.value?_ofInt (Double.representable_intCast_iff.mpr
      (Double.representable_natCast_of_le (by decide)))
  have hleast : (Double.finite false ⟨1, by decide⟩).value? =
      some (((1 : ℤ) : ℚ) / Double.unitsPerOne) := rfl
  have hform : Decimal.HasShortForm ((7 : ℤ) : ℚ) := ⟨7, 0, by norm_num, Or.inl rfl⟩
  have hpos : (0 : ℚ) < Double.unitsPerOne := Nat.cast_pos.mpr Double.unitsPerOne_pos
  have hsmall : |((1 : ℤ) : ℚ) / Double.unitsPerOne| ≤ 9 / (10 ^ 29 : ℕ) := by
    have hunits : 10 ^ 29 ≤ 9 * Double.unitsPerOne := by decide +kernel
    rw [Int.cast_one, abs_of_pos (one_div_pos.mpr hpos), div_le_div_iff₀ hpos (by norm_num)]
    exact_mod_cast (Nat.one_mul _).trans_le hunits
  obtain ⟨y, hy, hyseven, -⟩ := neutralResults_spec hseven
  obtain ⟨z, hz, -, -, hzleast⟩ := neutralResults_spec hleast
  refine ⟨⟨y, hy, hyseven hform⟩, z, hz, fun hequals => ?_⟩
  have hzero := (hzleast hsmall).2.mp hequals
  rw [Int.cast_one] at hzero
  exact (one_div_pos.mpr hpos).ne' hzero

/-- One over 10 ^ 30 is lost where zero is added to it, and a float of nine digits is another
one when it is multiplied by one. -/
theorem neutral_integer_loses :
    (∃ y, add.apply (integer 0) (float (.ofDecimal false 1 (-30))) = .ok (float y) ∧
      ¬y.equals (.ofDecimal false 1 (-30))) ∧
    ∃ y, multiply.apply (integer 1) (float (.ofDecimal false 442530373 (-2))) = .ok (float y) ∧
      ¬y.equals (.ofDecimal false 442530373 (-2)) := by
  have hadd : (Double.ofDecimal false 1 (-30)).isFinite := by decide +kernel
  have hmultiply : (Double.ofDecimal false 442530373 (-2)).isFinite := by decide +kernel
  refine ⟨⟨_, neutralResults_eq hadd _ (by simp [neutralResults]), by decide +kernel⟩,
    _, neutralResults_eq hmultiply _ (by simp [neutralResults]), by decide +kernel⟩

end Arithmetic

end RadarQuery
