import RadarQuery.Double.Rounding
import RadarQuery.Integer

/-!
Reading a double from text: an optional sign, then a name of a special value in
any case, or decimal digits with at most one point and an optional exponent. At
least one digit stands before the exponent, and one in it.
-/

namespace RadarQuery.Double

def takeMantissa (cs : List Char) : List Char × List Char × List Char :=
  let whole := cs.takeWhile Char.isDigit
  match cs.dropWhile Char.isDigit with
  | '.' :: rest => (whole, rest.takeWhile Char.isDigit, rest.dropWhile Char.isDigit)
  | rest => (whole, [], rest)

def readExponent : List Char → Option Int
  | [] => some 0
  | c :: cs =>
    if c = 'e' ∨ c = 'E' then
      let (negative, digits) := Integer.takeSign cs
      (Integer.natural? digits).map (Integer.withSign negative)
    else none

def readDecimal (negative : Bool) (cs : List Char) : Option Double :=
  let (whole, fraction, rest) := takeMantissa cs
  (Integer.natural? (whole ++ fraction)).bind fun digits =>
    (readExponent rest).map fun exponent =>
      ofDecimal negative digits (exponent - fraction.length)

def readName (negative : Bool) (cs : List Char) : Option Double :=
  let name := cs.map Char.toLower
  if name = ['i', 'n', 'f'] ∨ name = ['i', 'n', 'f', 'i', 'n', 'i', 't', 'y'] then
    some (infinity negative)
  else if name = ['n', 'a', 'n'] then some nan
  else none

def read (cs : List Char) : Option Double :=
  let (negative, body) := Integer.takeSign cs
  (readName negative body).or (readDecimal negative body)

end RadarQuery.Double
