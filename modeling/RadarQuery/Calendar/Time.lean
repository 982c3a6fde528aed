import RadarQuery.Calendar.Date

/-!
Times of day in whole seconds. A time is written as hour, minute and second, two
digits each. Second 60 is a leap second: it can be read and written, but not
called for.
-/

namespace RadarQuery.Calendar

structure Time where
  hour : Nat
  minute : Nat
  second : Nat
  hour_lt : hour < 24
  minute_lt : minute < 60
  second_le : second ≤ 60
deriving DecidableEq

namespace Time

def ofFields? (hour minute second : Nat) : Option Time :=
  if h : hour < 24 ∧ minute < 60 ∧ second ≤ 60 then
    some ⟨hour, minute, second, h.1, h.2.1, h.2.2⟩
  else none

def isLeapSecond (t : Time) : Bool :=
  t.second == 60

/-- The time of a clock that knows no leap seconds. -/
def ofClock? (hour minute second : Nat) : Option Time :=
  (ofFields? hour minute second).filter (!·.isLeapSecond)

def chars (t : Time) : List Char :=
  Integer.padded 2 t.hour ++ (Integer.padded 2 t.minute ++ Integer.padded 2 t.second)

def read (cs : List Char) : Option Time :=
  (readField 2 cs).bind fun (hour, cs) =>
    (readField 2 cs).bind fun (minute, cs) =>
      (readField 2 cs).bind fun (second, cs) =>
        if cs.isEmpty then ofFields? hour minute second else none

end Time

end RadarQuery.Calendar
