/-!
Decimal integers. A numeral is an optional sign and at least one ASCII digit;
an integer of the query language has 64 bits, and every result outside their
range is refused.
-/

namespace RadarQuery.Integer

def narrow? (n : Int) : Option Int64 :=
  if Int64.minValue.toInt ≤ n ∧ n ≤ Int64.maxValue.toInt then some (Int64.ofInt n) else none

/-- The value of a run of ASCII digits, of which there is at least one. -/
def natural? (cs : List Char) : Option Nat :=
  if !cs.isEmpty && cs.all Char.isDigit then some (Nat.ofDigitChars 10 cs 0) else none

/-- Takes off one sign; the flag says whether it is a minus. -/
def takeSign : List Char → Bool × List Char
  | '-' :: cs => (true, cs)
  | '+' :: cs => (false, cs)
  | cs => (false, cs)

def withSign (negative : Bool) (n : Nat) : Int :=
  if negative then -(n : Int) else n

def read (cs : List Char) : Option Int64 :=
  let (negative, digits) := takeSign cs
  (natural? digits).bind fun n => narrow? (withSign negative n)

def chars (n : Int) : List Char :=
  if n < 0 then '-' :: Nat.toDigits 10 n.natAbs else Nat.toDigits 10 n.natAbs

def padded (width n : Nat) : List Char :=
  let digits := Nat.toDigits 10 n
  List.replicate (width - digits.length) '0' ++ digits

end RadarQuery.Integer
