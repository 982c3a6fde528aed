import Mathlib.Logic.Basic
import RadarQuery.Double.Basic

/-!
The order of doubles. Two numbers compare as their places do, and what is not a number
compares with nothing. So the order from the other side is the reverse, and numerical equality
is an equivalence among the numbers.
-/

namespace RadarQuery.Double

variable {x y z : Double}

theorem place_eq_none_iff : x.place = none ↔ x = nan := by
  cases x <;> simp [place]

theorem order_eq_none_iff : x.order y = none ↔ x = nan ∨ y = nan := by
  rw [← place_eq_none_iff, ← place_eq_none_iff]
  unfold order
  cases x.place <;> cases y.place <;> simp

theorem order_swap (x y : Double) : y.order x = (x.order y).map Ordering.swap := by
  unfold order
  cases x.place with
  | none => cases y.place <;> rfl
  | some p =>
    cases y.place with
    | none => rfl
    | some q => exact congrArg some Std.OrientedCmp.eq_swap

/-- Numbers are equal if they have the same place. -/
theorem equals_iff : x.equals y ↔ ∃ p, x.place = some p ∧ y.place = some p := by
  unfold equals order
  cases x.place with
  | none => simp
  | some p =>
    cases y.place with
    | none => simp
    | some q => simpa using eq_comm

theorem equals_self_iff : x.equals x ↔ x ≠ nan := by
  rw [equals_iff, Ne, ← place_eq_none_iff]
  cases x.place <;> simp

theorem equals_comm (x y : Double) : x.equals y = y.equals x := by
  rw [Bool.eq_iff_iff, equals_iff, equals_iff]
  simp only [and_comm]

theorem equals_trans (hxy : x.equals y) (hyz : y.equals z) : x.equals z := by
  obtain ⟨p, hx, hy⟩ := equals_iff.mp hxy
  obtain ⟨q, hy', hz⟩ := equals_iff.mp hyz
  obtain rfl : p = q := by simpa [hy] using hy'
  exact equals_iff.mpr ⟨p, hx, hz⟩

end RadarQuery.Double
