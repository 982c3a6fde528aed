import RadarQuery.Double.Rounding

/-!
Arithmetic on doubles. Each operation rounds the exact result once; what
remains are the rules for infinities, for undefined results and for the sign of
zero.
-/

namespace RadarQuery.Double

def signedUnits (negative : Bool) (size : Magnitude) : Int :=
  if negative then -(size.units : Int) else size.units

/-- The sum; a sum of zero is negative only if both terms are. -/
def add : Double → Double → Double
  | nan, _ => nan
  | _, nan => nan
  | infinity m, infinity n => if m = n then infinity m else nan
  | infinity m, finite .. => infinity m
  | finite .., infinity n => infinity n
  | finite m a, finite n b =>
    let sum := signedUnits m a + signedUnits n b
    let negative := if sum = 0 then m && n else decide (sum < 0)
    ofQuotient negative sum.natAbs 1

def sub (a b : Double) : Double :=
  add a b.negate

def mul : Double → Double → Double
  | nan, _ => nan
  | _, nan => nan
  | infinity m, infinity n => infinity (m ^^ n)
  | infinity m, finite n b => if b.rank = 0 then nan else infinity (m ^^ n)
  | finite m a, infinity n => if a.rank = 0 then nan else infinity (m ^^ n)
  | finite m a, finite n b => ofQuotient (m ^^ n) (a.units * b.units) unitsPerOne

def div : Double → Double → Double
  | nan, _ => nan
  | _, nan => nan
  | infinity _, infinity _ => nan
  | infinity m, finite n _ => infinity (m ^^ n)
  | finite m _, infinity n => finite (m ^^ n) .zero
  | finite m a, finite n b =>
    if b.rank = 0 then if a.rank = 0 then nan else infinity (m ^^ n)
    else ofQuotient (m ^^ n) (a.units * unitsPerOne) b.units

/-- The nearest whole number, a half away from zero. -/
def round : Double → Double
  | finite negative size =>
    let whole := (2 * size.units + unitsPerOne) / (2 * unitsPerOne)
    ofQuotient negative (whole * unitsPerOne) 1
  | a => a

/-- A power by repeated squaring, each product rounded; the digits of the exponent
are taken from the lowest. -/
def powerFrom (fuel : Nat) (product base : Double) (exponent : Nat) : Double :=
  match fuel with
  | 0 => product
  | fuel + 1 =>
    if exponent = 0 then product
    else
      let product := if exponent % 2 = 1 then product.mul base else product
      powerFrom fuel product (base.mul base) (exponent / 2)

def power (base : Double) (exponent : Nat) : Double :=
  powerFrom exponent (ofNat 1) base exponent

end RadarQuery.Double
