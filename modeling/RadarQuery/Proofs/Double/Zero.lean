import RadarQuery.Proofs.Double.Range

/-!
Zero among the doubles. Two of them are zero, one of each sign, and rounding a quotient of at
least one unit gives neither. So an integer is rounded to zero only if it is zero.
-/

namespace RadarQuery.Double

/-- There are two zeros. -/
theorem isZero_iff {x : Double} : x.isZero ↔ ∃ negative, x = .finite negative .zero := by
  cases x with
  | nan => simp [isZero, equals, order, place]
  | infinity negative =>
    have hlimit : ¬Magnitude.limit = 0 := by decide
    cases negative <;> simp [isZero, equals, order, place, zero, Magnitude.zero, hlimit]
  | finite negative size =>
    have hrank : (Magnitude.zero.rank : ℤ) = 0 := rfl
    cases negative <;>
      simp [isZero, equals, order, place, zero, hrank, Magnitude.rank_eq_zero_iff]

theorem ofInt_zero : ofInt 0 = .finite false .zero := by
  rw [ofInt, Int.natAbs_zero, Nat.zero_mul]
  decide

theorem nearestRank_pos {num den : ℕ} (hden : 0 < den) (h : den ≤ num) :
    0 < nearestRank num den := by
  have hdigit : 0 < num / den := Nat.div_pos h hden
  simp only [nearestRank]
  rcases Nat.eq_zero_or_pos (Nat.log2 (num / den) - 52) with hshift | hshift
  · have hone : den * Nat.pow 2 0 = den := Nat.mul_one den
    rw [hshift, Nat.zero_mul, Nat.zero_add, hone]
    exact Nat.lt_of_lt_of_le hdigit (div_le_roundHalfEven num den)
  · exact Nat.add_pos_left (Nat.mul_pos hshift (by decide)) _

/-- An integer is rounded to zero only if it is zero. -/
theorem isZero_ofInt_iff {n : ℤ} : (ofInt n).isZero ↔ n = 0 := by
  rw [isZero_iff]
  constructor
  · rintro ⟨negative, h⟩
    by_contra hn
    have hunits : 1 ≤ n.natAbs * unitsPerOne :=
      Nat.mul_pos (Int.natAbs_pos.mpr hn) unitsPerOne_pos
    have hrank := nearestRank_pos Nat.one_pos hunits
    unfold ofInt ofQuotient at h
    split at h
    case isTrue =>
      have hsize := congrArg Magnitude.rank (Double.finite.inj h).2
      exact Nat.ne_of_gt hrank hsize
    case isFalse => cases h
  · rintro rfl
    exact ⟨false, ofInt_zero⟩

end RadarQuery.Double
