import RadarQuery.Integer
import RadarQuery.Text.Blank

/-!
Calendar dates of the proleptic Gregorian calendar, in the years -262143 to
262142. A date is written as year, month and day without separators. Years of
four digits are written as such; a longer year has a plus sign and a negative
one a minus sign in front.
-/

namespace RadarQuery.Calendar

def isLeap (year : Int) : Bool :=
  year % 4 == 0 && (year % 100 != 0 || year % 400 == 0)

def daysIn (year : Int) : Nat → Nat
  | 2 => if isLeap year then 29 else 28
  | 4 | 6 | 9 | 11 => 30
  | 1 | 3 | 5 | 7 | 8 | 10 | 12 => 31
  | _ => 0

structure Date where
  year : Int
  month : Nat
  day : Nat
  first_year_le : -262143 ≤ year
  year_le_last : year ≤ 262142
  day_pos : 0 < day
  day_le : day ≤ daysIn year month
deriving DecidableEq

/-- Reads a number of at most `width` digits after blanks. -/
def readField (width : Nat) (cs : List Char) : Option (Nat × List Char) :=
  let cs := Text.trimLeft cs
  let digits := (cs.take width).takeWhile Char.isDigit
  (Integer.natural? digits).map fun n => (n, cs.drop digits.length)

namespace Date

def ofFields? (year : Int) (month day : Nat) : Option Date :=
  if h : -262143 ≤ year ∧ year ≤ 262142 ∧ 0 < day ∧ day ≤ daysIn year month then
    some ⟨year, month, day, h.1, h.2.1, h.2.2.1, h.2.2.2⟩
  else none

def yearChars (year : Int) : List Char :=
  if year < 0 then '-' :: Integer.padded 4 year.natAbs
  else if year > 9999 then '+' :: Integer.padded 4 year.natAbs
  else Integer.padded 4 year.natAbs

def chars (d : Date) : List Char :=
  yearChars d.year ++ (Integer.padded 2 d.month ++ Integer.padded 2 d.day)

/-- Reads a year after blanks: up to four digits, or a sign and all the digits that
follow it. -/
def readYear (cs : List Char) : Option (Int × List Char) :=
  match Text.trimLeft cs with
  | '-' :: rest =>
    (Integer.natural? (rest.takeWhile Char.isDigit)).map fun n =>
      (Integer.withSign true n, rest.dropWhile Char.isDigit)
  | '+' :: rest =>
    (Integer.natural? (rest.takeWhile Char.isDigit)).map fun n =>
      (Integer.withSign false n, rest.dropWhile Char.isDigit)
  | rest => (readField 4 rest).map fun (n, rest) => (Integer.withSign false n, rest)

def read (cs : List Char) : Option Date :=
  (readYear cs).bind fun (year, cs) =>
    (readField 2 cs).bind fun (month, cs) =>
      (readField 2 cs).bind fun (day, cs) =>
        if cs.isEmpty then ofFields? year month day else none

end Date

end RadarQuery.Calendar
