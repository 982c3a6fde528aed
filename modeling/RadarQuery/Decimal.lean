import RadarQuery.Double.Arithmetic

/-!
Scaled decimals: a sign, a mantissa of 96 bits and at most 28 decimal places. An
integer meets a float in them, so that one and a tenth make 1.1. An operation
gives nothing when its result does not fit; the caller then computes with
doubles.
-/

namespace RadarQuery

structure Decimal where
  negative : Bool
  mantissa : Nat
  scale : Nat
  mantissa_lt : mantissa < Nat.pow 2 96
  scale_le : scale ≤ 28
deriving DecidableEq

namespace Decimal

def zero : Decimal := ⟨false, 0, 0, by decide, by decide⟩

def isZero (d : Decimal) : Bool :=
  d.mantissa == 0

def negate (d : Decimal) : Decimal :=
  { d with negative := !d.negative }

def ofParts? (negative : Bool) (mantissa scale : Nat) : Option Decimal :=
  if h : mantissa < Nat.pow 2 96 ∧ scale ≤ 28 then some ⟨negative, mantissa, scale, h.1, h.2⟩
  else none

/-- The decimal of an exact result. If it does not fit, the fewest places are dropped
that make it fit, rounding once, a half to the even neighbour. -/
def fit (negative : Bool) (mantissa scale : Nat) : Option Decimal :=
  (List.range (scale + 1)).findSome? fun dropped =>
    ofParts? negative (Double.roundHalfEven mantissa (Nat.pow 10 dropped)) (scale - dropped)

def stripZeros : Nat → Nat → Nat × Nat
  | 0, mantissa => (mantissa, 0)
  | scale + 1, mantissa =>
    if mantissa % 10 = 0 then stripZeros scale (mantissa / 10) else (mantissa, scale + 1)

/-! Conversion from a double -/

def dropDigit (mantissa : Nat) : Nat :=
  if mantissa % 10 ≥ 5 then mantissa / 10 + 1 else mantissa / 10

/-- Multiplies a mantissa by five `count` times. An even one is halved instead, for one
more power of ten; so is an odd one, losing its last bit, if five times it does not keep
within 96 bits. -/
def timesFive : Nat → Nat → Int → Nat × Int
  | 0, mantissa, power => (mantissa, power)
  | count + 1, mantissa, power =>
    if mantissa % 2 = 0 then timesFive count (mantissa / 2) (power + 1)
    else if 5 * mantissa < Nat.pow 2 96 then timesFive count (5 * mantissa) power
    else timesFive count (mantissa / 2) (power + 1)

/-- Divides a mantissa by five `count` times. It is doubled instead, for one power of ten
less, as long as it keeps within 96 bits. -/
def overFive : Nat → Nat → Int → Option (Nat × Int)
  | 0, mantissa, power => some (mantissa, power)
  | count + 1, mantissa, power =>
    if mantissa < Nat.pow 2 95 then overFive count (2 * mantissa) (power - 1)
    else if 2 * power > count + 1 then none
    else overFive count (mantissa / 5) power

/-- Drops `count` digits, rounding each time; none when no digit is left. -/
def dropDigits : Nat → Nat → Option Nat
  | 0, mantissa => some mantissa
  | count + 1, mantissa =>
    if mantissa < 10 then none else dropDigits count (dropDigit mantissa)

def dropExcess : Nat → Nat → Nat × Nat
  | 0, mantissa => (mantissa, 0)
  | scale + 1, mantissa =>
    if mantissa ≥ Nat.pow 2 52 then dropExcess scale (dropDigit mantissa) else (mantissa, scale + 1)

def ofScaled (negative : Bool) (mantissa : Nat) (power : Int) : Option Decimal :=
  if power ≥ 0 then ofParts? negative (mantissa * Nat.pow 10 power.natAbs) 0
  else
    match dropDigits (power.natAbs - 28) mantissa with
    | none => some zero
    | some mantissa =>
      let (mantissa, scale) := dropExcess (min power.natAbs 28) mantissa
      let (mantissa, scale) := stripZeros scale mantissa
      ofParts? negative mantissa scale

/-- A power of two is a power of ten over the same power of five. -/
def ofSize (negative : Bool) (size : Magnitude) : Option Decimal :=
  let exponent : Int := size.shift - 1074
  if size.rank = 0 then some zero
  else if exponent < 0 then
    let (mantissa, power) := timesFive exponent.natAbs size.significand exponent
    ofScaled negative mantissa power
  else
    (overFive exponent.natAbs size.significand exponent).bind fun (mantissa, power) =>
      ofScaled negative mantissa power

def ofDouble : Double → Option Decimal
  | .finite negative size => ofSize negative size
  | _ => none

def ofInteger (n : Int64) : Decimal where
  negative := n.toInt < 0
  mantissa := n.toInt.natAbs
  scale := 0
  mantissa_lt := by
    have := n.toInt_lt
    have := n.le_toInt
    rw [Nat.pow_eq]
    omega
  scale_le := by decide

/-! Arithmetic -/

/-- The value as a multiple of the last of `scale` places. -/
def signed (d : Decimal) (scale : Nat) : Int :=
  let scaled : Int := d.mantissa * Nat.pow 10 (scale - d.scale)
  if d.negative then -scaled else scaled

def add (a b : Decimal) : Option Decimal :=
  if b.isZero then some a
  else if a.isZero then some b
  else
    let scale := max a.scale b.scale
    let sum := a.signed scale + b.signed scale
    fit (sum < 0) sum.natAbs scale

def sub (a b : Decimal) : Option Decimal :=
  a.add b.negate

def mul (a b : Decimal) : Option Decimal :=
  if a.isZero || b.isZero then some zero
  else fit (a.negative ^^ b.negative) (a.mantissa * b.mantissa) (a.scale + b.scale)

def quotientAt (a b : Decimal) (scale : Nat) : Nat :=
  Double.roundHalfEven (a.mantissa * Nat.pow 10 (scale + b.scale)) (b.mantissa * Nat.pow 10 a.scale)

def mostPlaces (a b : Decimal) : Option Nat :=
  (List.range 29).reverse.find? fun scale => quotientAt a b scale < Nat.pow 2 96

/-- Long division begins at the difference of the scales and goes on by nine places at a
time. This is the number of steps after which it comes out even. -/
def evenAfter (a b : Decimal) : Option Nat :=
  (List.range 7).find? fun steps => a.mantissa * Nat.pow 10 (9 * steps) % b.mantissa = 0

/-- The places of the quotient: those that long division has reached when it comes out
even, otherwise as many as fit. -/
def quotientPlaces (a b : Decimal) : Option Nat :=
  (mostPlaces a b).map fun most =>
    match evenAfter a b with
    | some steps => min most ((a.scale - b.scale + 9 * steps : Int).toNat)
    | none => most

def dropZeros (count : Nat) : Nat × Nat → Nat × Nat
  | (mantissa, scale) =>
    if count ≤ scale ∧ mantissa % Nat.pow 10 count = 0 then
      (mantissa / Nat.pow 10 count, scale - count)
    else (mantissa, scale)

def dropEights : Nat → Nat × Nat → Nat × Nat
  | 0, m => m
  | fuel + 1, m => if m.1 % Nat.pow 2 32 = 0 then dropEights fuel (dropZeros 8 m) else m

/-- Drops zeros at the end of a quotient: groups of eight, then four, two and one. What is
no multiple of 2 ^ 32 thus loses at most seven. -/
def shorten (m : Nat × Nat) : Nat × Nat :=
  dropZeros 1 (dropZeros 2 (dropZeros 4 (dropEights 3 m)))

/-- The quotient, none by zero. It is shortened unless it came out even at once. -/
def div (a b : Decimal) : Option Decimal :=
  if b.isZero then none
  else if a.isZero then some zero
  else
    (quotientPlaces a b).bind fun places =>
      let (mantissa, scale) :=
        if a.mantissa % b.mantissa = 0 then (quotientAt a b places, places)
        else shorten (quotientAt a b places, places)
      ofParts? (a.negative ^^ b.negative) mantissa scale

/-! Conversion to a double -/

/-- The double of a mantissa with at least one place: whole part and fraction are
added, and the sum is rounded at the last place. -/
def sizeToDouble (mantissa scale : Nat) : Double :=
  let unit := Nat.pow 10 scale
  let whole := Double.ofNat (mantissa / unit)
  let fraction := (Double.ofNat (mantissa % unit)).div (Double.ofNat unit)
  if fraction.isZero then whole
  else
    let places := (Double.ofNat 10).power scale
    (((whole.add fraction).mul places).round).div places

def toDouble (d : Decimal) : Double :=
  if d.scale = 0 then .ofInt (d.signed 0)
  else if d.negative then (sizeToDouble d.mantissa d.scale).negate
  else sizeToDouble d.mantissa d.scale

end Decimal

end RadarQuery
