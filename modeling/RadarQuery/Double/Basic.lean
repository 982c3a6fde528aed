/-!
Double precision numbers. The finite sizes are numbered in increasing order:
below rank 2 ^ 52 the numbers are the multiples of the least positive one, and
every further block of 2 ^ 52 ranks covers one binade. A size is thus a natural
number, and the order of numbers is the order of their ranks.
-/

namespace RadarQuery

-- Powers are written out: the sign for them means another power beside an algebra library.

/-- The first rank that is too large for a finite number. -/
def Magnitude.limit : Nat := 2047 * Nat.pow 2 52

structure Magnitude where
  rank : Nat
  rank_lt : rank < Magnitude.limit
deriving DecidableEq

inductive Double where
  | nan
  | infinity (negative : Bool)
  | finite (negative : Bool) (size : Magnitude)
deriving DecidableEq

namespace Magnitude

def zero : Magnitude := ⟨0, by decide⟩

theorem rank_eq_zero_iff {m : Magnitude} : m.rank = 0 ↔ m = zero := by
  cases m
  simp [zero]

def significand (m : Magnitude) : Nat :=
  if m.rank < Nat.pow 2 52 then m.rank else Nat.pow 2 52 + m.rank % Nat.pow 2 52

/-- How far the digits are shifted from the least positive number, which is 2 ^ -1074. -/
def shift (m : Magnitude) : Nat :=
  m.rank / Nat.pow 2 52 - 1

def units (m : Magnitude) : Nat :=
  m.significand * Nat.pow 2 m.shift

end Magnitude

namespace Double

def unitsPerOne : Nat := Nat.pow 2 1074

def zero : Double := .finite false .zero

def negate : Double → Double
  | nan => nan
  | infinity negative => infinity !negative
  | finite negative size => finite (!negative) size

def isFinite : Double → Bool
  | finite .. => true
  | _ => false

/-- A number's place in the order of the numbers. Both zeros have one place, and
what is not a number has none. -/
def place : Double → Option Int
  | nan => none
  | infinity negative => some (if negative then -Magnitude.limit else Magnitude.limit)
  | finite negative size => some (if negative then -size.rank else size.rank)

def order (a b : Double) : Option Ordering :=
  match a.place, b.place with
  | some m, some n => some (compare m n)
  | _, _ => none

def equals (a b : Double) : Bool :=
  a.order b == some .eq

def isZero (a : Double) : Bool :=
  a.equals zero

end Double

end RadarQuery
