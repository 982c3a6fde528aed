import RadarQuery.Double.Shortest

/-!
How a double is written. A literal of the query language shows that it is not an
integer: it has a point or an exponent, and is positional between 10 ^ -4 and
10 ^ 16. An attribute's value is written plainly, always positional, with a
point only before a fraction.
-/

namespace RadarQuery.Double

/-- Digits with the point `point` places after the first of them; `whole` ends a
number that has no fraction. -/
def positional (whole : List Char) (digits : List Char) (point : Int) : List Char :=
  if point ≤ 0 then '0' :: '.' :: (List.replicate point.natAbs '0' ++ digits)
  else if point ≥ digits.length then
    digits ++ List.replicate (point.natAbs - digits.length) '0' ++ whole
  else digits.take point.natAbs ++ '.' :: digits.drop point.natAbs

def scientific (digits : List Char) (exponent : Int) : List Char :=
  let fraction := digits.drop 1
  digits.take 1 ++ (if fraction.isEmpty then [] else '.' :: fraction)
    ++ 'e' :: (if exponent < 0 then ['-'] else []) ++ Nat.toDigits 10 exponent.natAbs

def literalSize (size : Magnitude) : List Char :=
  if size.rank = 0 then ['0', '.', '0']
  else
    let d := shortest size
    let digits := Nat.toDigits 10 d.digits
    let point := d.power + digits.length
    if -4 < point ∧ point ≤ 16 then positional ['.', '0'] digits point
    else scientific digits (point - 1)

def plainSize (size : Magnitude) : List Char :=
  if size.rank = 0 then ['0']
  else
    let d := shortest size
    let digits := Nat.toDigits 10 d.digits
    positional [] digits (d.power + digits.length)

def render (layout : Magnitude → List Char) : Double → List Char
  | nan => ['N', 'a', 'N']
  | infinity negative => sign negative ++ ['i', 'n', 'f']
  | finite negative size => sign negative ++ layout size
where
  sign (negative : Bool) : List Char := if negative then ['-'] else []

def literal (a : Double) : List Char :=
  a.render literalSize

def plain (a : Double) : List Char :=
  a.render plainSize

end RadarQuery.Double
