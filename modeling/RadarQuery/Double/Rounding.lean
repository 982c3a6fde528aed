import RadarQuery.Double.Basic

/-!
Rounding of an exact quotient to the nearest double, a half to the even
neighbour. The quotient is first rounded to 53 binary digits, or to a multiple
of the least positive number where that is coarser; the rank follows from the
rounded digits and the position of the first of them. Every operation and the
reading of decimals go through this one function.
-/

namespace RadarQuery.Double

def roundHalfEven (num den : Nat) : Nat :=
  let floor := num / den
  let rest := 2 * (num % den)
  if rest < den ∨ rest = den ∧ floor % 2 = 0 then floor else floor + 1

def nearestRank (num den : Nat) : Nat :=
  let shift := Nat.log2 (num / den) - 52
  shift * Nat.pow 2 52 + roundHalfEven num (den * Nat.pow 2 shift)

/-- The number nearest to a quotient of units. What is at least half a step above
the greatest finite number is infinite. -/
def ofQuotient (negative : Bool) (num den : Nat) : Double :=
  if h : nearestRank num den < Magnitude.limit then finite negative ⟨nearestRank num den, h⟩
  else infinity negative

def ofNat (n : Nat) : Double :=
  ofQuotient false (n * unitsPerOne) 1

def ofInt (n : Int) : Double :=
  ofQuotient (n < 0) (n.natAbs * unitsPerOne) 1

/-- The number nearest to a decimal, digits times a power of ten. Beyond the range of
the powers of ten that matter the result is known without computing it. -/
def ofDecimal (negative : Bool) (digits : Nat) (power : Int) : Double :=
  if digits = 0 ∨ power < -(400 + Nat.log2 digits : Int) then finite negative .zero
  else if power > 400 then infinity negative
  else if power < 0 then ofQuotient negative (digits * unitsPerOne) (Nat.pow 10 power.natAbs)
  else ofQuotient negative (digits * Nat.pow 10 power.natAbs * unitsPerOne) 1

end RadarQuery.Double
