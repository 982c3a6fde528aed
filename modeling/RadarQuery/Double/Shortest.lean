import RadarQuery.Double.Rounding

/-!
The fewest decimal digits that identify a double. For one digit, then two, up to
seventeen, the number's two neighbours on the decimal grid of that many digits
are read back. The first grid on which one of them gives the same number wins;
of two such neighbours the nearer, and the upper one if they are equally near.
-/

namespace RadarQuery.Double

structure Digits where
  digits : Nat
  power : Int
deriving DecidableEq

def Digits.strip (fuel : Nat) (d : Digits) : Digits :=
  match fuel with
  | 0 => d
  | fuel + 1 =>
    if d.digits ≠ 0 ∧ d.digits % 10 = 0 then strip fuel ⟨d.digits / 10, d.power + 1⟩ else d

def Digits.readsBack (size : Magnitude) (d : Digits) : Bool :=
  ofDecimal false d.digits d.power = finite false size

def scaledBy (size : Magnitude) (power : Int) : Nat × Nat :=
  if power < 0 then (size.units * Nat.pow 10 power.natAbs, unitsPerOne)
  else (size.units, unitsPerOne * Nat.pow 10 power.natAbs)

/-- The least power of ten above a size that is not zero. The estimate from the
binary logarithm is at most two too small. -/
def powerAbove (size : Magnitude) : Int :=
  let estimate := ((Nat.log2 size.units : Int) - 1074) * 1233 / 4096
  let isAbove (power : Int) : Bool :=
    let (num, den) := scaledBy size power
    num < den
  if isAbove estimate then estimate
  else if isAbove (estimate + 1) then estimate + 1
  else estimate + 2

/-- The neighbour on the grid of a power of ten that reads back, if one does. -/
def onGrid (size : Magnitude) (power : Int) : Option Digits :=
  let (num, den) := scaledBy size power
  let floor := num / den
  let lower := Digits.strip 1 ⟨floor, power⟩
  let upper := Digits.strip 1 ⟨floor + 1, power⟩
  match lower.readsBack size, upper.readsBack size with
  | true, true => some (if 2 * num < (2 * floor + 1) * den then lower else upper)
  | true, false => some lower
  | false, true => some upper
  | false, false => none

def exactDigits (size : Magnitude) : Digits :=
  Digits.strip 1100 ⟨size.units * Nat.pow 5 1074, -1074⟩

def shortest (size : Magnitude) : Digits :=
  let above := powerAbove size
  ((List.range 17).findSome? fun (count : Nat) => onGrid size (above - (count + 1))).getD
    (exactDigits size)

end RadarQuery.Double
