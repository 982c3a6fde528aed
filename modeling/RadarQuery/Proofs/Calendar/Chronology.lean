import Mathlib.Data.String.Basic
import Mathlib.Order.Monotone.Basic
import RadarQuery.Proofs.Calendar.Reading
import RadarQuery.Proofs.Operator.Comparison

/-!
The order of time. The days of all years are numbered through, and so are the seconds of a day.
The numbers are in the order of the fields, the year or the hour first, and this is how texts
made of fields of one length compare as well. So dates with years of four digits, times
without leap seconds and both together are in the order of time as texts.
-/

namespace RadarQuery

/-- What is ordered by one thing first and then by another. -/
theorem compare_eq_then {α β : Type} [LinearOrder α] [LinearOrder β] {a b : α} {x y : β}
    {o : Ordering} (hlt : a < b → x < y) (hgt : b < a → y < x) (heq : a = b → compare x y = o) :
    compare x y = (compare a b).then o := by
  rcases lt_trichotomy a b with h | h | h
  · rw [compare_lt_iff_lt.mpr h, compare_lt_iff_lt.mpr (hlt h)]
    rfl
  · rw [compare_eq_iff_eq.mpr h, heq h]
    rfl
  · rw [compare_gt_iff_gt.mpr h, compare_gt_iff_gt.mpr (hgt h)]
    rfl

theorem compare_eq_compare {α β : Type} [LinearOrder α] [LinearOrder β] {a b : α} {x y : β}
    (hlt : a < b → x < y) (hgt : b < a → y < x) (heq : a = b → x = y) :
    compare x y = compare a b :=
  (compare_eq_then hlt hgt fun h => compare_eq_iff_eq.mpr (heq h)).trans Ordering.then_eq

namespace Calendar

section Numbers

def yearStart (year : ℤ) : ℤ :=
  365 * year + ((year + 3) / 4 - (year + 99) / 100 + (year + 399) / 400)

def daysBefore (year : ℤ) (month : ℕ) : ℕ :=
  ((List.range month).map (daysIn year)).sum

variable {year year' : ℤ}

theorem daysBefore_succ (year : ℤ) (month : ℕ) :
    daysBefore year (month + 1) = daysBefore year month + daysIn year month := by
  simp [daysBefore, List.range_succ]

theorem daysBefore_mono (year : ℤ) : Monotone (daysBefore year) :=
  monotone_nat_of_le_succ fun month => by rw [daysBefore_succ]; omega

/-- After its twelve months the next year starts. -/
theorem yearStart_succ (year : ℤ) : yearStart (year + 1) = yearStart year + daysBefore year 13 := by
  have hmonths : daysBefore year 13 = if isLeap year then 366 else 365 := by
    simp only [daysBefore, List.range_succ, List.range_zero, List.nil_append, List.map_append,
      List.map_cons, List.map_nil, List.sum_append, List.sum_cons, List.sum_nil, daysIn]
    split <;> rfl
  have hleap : isLeap year ↔ year % 4 = 0 ∧ (year % 100 ≠ 0 ∨ year % 400 = 0) := by
    simp [isLeap]
  rw [hmonths, yearStart, yearStart]
  split
  case isTrue h =>
    have h := hleap.mp h
    omega
  case isFalse h =>
    have h := mt hleap.mpr h
    omega

theorem yearStart_le_yearStart (h : year ≤ year') : yearStart year ≤ yearStart year' :=
  monotone_int_of_le_succ (fun first => by rw [yearStart_succ]; omega) h

end Numbers

namespace Date

variable {d e : Date}

/-- The number of a day. The first of January of the year zero is day one. -/
def dayNumber (d : Date) : ℤ :=
  yearStart d.year + daysBefore d.year d.month + d.day

def order (d e : Date) : Ordering :=
  (compare d.year e.year).then ((compare d.month e.month).then (compare d.day e.day))

theorem day_le_daysBefore (d : Date) :
    daysBefore d.year d.month + d.day ≤ daysBefore d.year (d.month + 1) := by
  rw [daysBefore_succ]
  exact Nat.add_le_add_left d.day_le _

theorem dayNumber_le (d : Date) : d.dayNumber ≤ yearStart (d.year + 1) := by
  have hmonth : d.month + 1 ≤ 13 := Nat.succ_le_succ (month_of_daysIn_pos d.daysIn_pos).2
  have hmonths := daysBefore_mono d.year hmonth
  have hday := d.day_le_daysBefore
  rw [yearStart_succ, dayNumber]
  omega

theorem dayNumber_lt_of_year_lt (h : d.year < e.year) : d.dayNumber < e.dayNumber :=
  calc d.dayNumber ≤ yearStart (d.year + 1) := d.dayNumber_le
    _ ≤ yearStart e.year := yearStart_le_yearStart h
    _ < e.dayNumber := by
      have hday := e.day_pos
      rw [dayNumber]
      omega

theorem dayNumber_lt_of_month_lt (hyear : d.year = e.year) (h : d.month < e.month) :
    d.dayNumber < e.dayNumber := by
  have hnext : d.month + 1 ≤ e.month := h
  have hmonths := daysBefore_mono d.year hnext
  have hday := d.day_le_daysBefore
  have hpos := e.day_pos
  rw [dayNumber, dayNumber, ← hyear]
  omega

/-- The days are numbered in the order of their fields. -/
theorem compare_dayNumber (d e : Date) : compare d.dayNumber e.dayNumber = d.order e := by
  refine compare_eq_then dayNumber_lt_of_year_lt dayNumber_lt_of_year_lt fun hyear => ?_
  refine compare_eq_then (dayNumber_lt_of_month_lt hyear) (dayNumber_lt_of_month_lt hyear.symm)
    fun hmonth => ?_
  rw [dayNumber, dayNumber, hyear, hmonth]
  exact compare_eq_compare (by omega) (by omega) (by omega)

/-- A leap day, the day behind it, and the first day of the year 1970. -/
example : (ofFields? 2024 2 29).map dayNumber = some 739311 ∧
    (ofFields? 2024 3 1).map dayNumber = some 739312 ∧
    (ofFields? 1970 1 1).map dayNumber = some 719529 := by decide

end Date

namespace Time

variable {t u : Time}

def secondNumber (t : Time) : ℕ :=
  t.hour * 3600 + t.minute * 60 + t.second

def order (t u : Time) : Ordering :=
  (compare t.hour u.hour).then ((compare t.minute u.minute).then (compare t.second u.second))

theorem secondNumber_lt (h : t.second < 60) : t.secondNumber < 86400 := by
  have hhour := t.hour_lt
  have hminute := t.minute_lt
  rw [secondNumber]
  omega

theorem secondNumber_lt_of_hour_lt (ht : t.second < 60) (h : t.hour < u.hour) :
    t.secondNumber < u.secondNumber := by
  have hminute := t.minute_lt
  rw [secondNumber, secondNumber]
  omega

theorem secondNumber_lt_of_minute_lt (ht : t.second < 60) (hhour : t.hour = u.hour)
    (h : t.minute < u.minute) : t.secondNumber < u.secondNumber := by
  rw [secondNumber, secondNumber]
  omega

/-- A leap second would have the number of the second behind it. -/
theorem compare_secondNumber (ht : t.second < 60) (hu : u.second < 60) :
    compare t.secondNumber u.secondNumber = t.order u := by
  refine compare_eq_then (secondNumber_lt_of_hour_lt ht) (secondNumber_lt_of_hour_lt hu)
    fun hhour => ?_
  refine compare_eq_then (secondNumber_lt_of_minute_lt ht hhour)
    (secondNumber_lt_of_minute_lt hu hhour.symm) fun hminute => ?_
  rw [secondNumber, secondNumber, hhour, hminute]
  exact compare_eq_compare (by omega) (by omega) (by omega)

end Time

/-- The seconds from the start of the year zero, with a full day for each day number. -/
def instant (d : Date) (t : Time) : ℤ :=
  d.dayNumber * 86400 + t.secondNumber

theorem compare_instant {d e : Date} {t u : Time} (ht : t.second < 60) (hu : u.second < 60) :
    compare (instant d t) (instant e u) = (d.order e).then (t.order u) := by
  have hbefore := Time.secondNumber_lt ht
  have hbefore' := Time.secondNumber_lt hu
  rw [← Date.compare_dayNumber, ← Time.compare_secondNumber ht hu, instant, instant]
  refine compare_eq_then (by omega) (by omega) fun hday => ?_
  rw [hday]
  exact compare_eq_compare (by omega) (by omega) (by omega)

section Texts

variable {as bs cs ds : List Char} {width n m : ℕ}

theorem textOrder_eq_compare (s t : String) : textOrder s t = compare s t := by
  rcases lt_trichotomy s t with hlt | heq | hgt
  · rw [compare_lt_iff_lt.mpr hlt, textOrder, if_pos hlt]
  · rw [compare_eq_iff_eq.mpr heq, textOrder_eq_iff.mpr heq]
  · rw [compare_gt_iff_gt.mpr hgt, textOrder_swap, textOrder, if_pos hgt]
    rfl

theorem ofList_lt_ofList_iff : String.ofList as < String.ofList bs ↔ as < bs := by
  rw [String.lt_iff_toList_lt, String.toList_ofList, String.toList_ofList]

theorem append_lt_append (hlength : as.length = bs.length) (h : as < bs) : as ++ cs < bs ++ ds := by
  induction as generalizing bs with
  | nil =>
    obtain rfl : bs = [] := List.eq_nil_of_length_eq_zero hlength.symm
    exact absurd h (List.lt_irrefl [])
  | cons a as ih =>
    cases bs with
    | nil => cases hlength
    | cons b bs =>
      rw [List.cons_append, List.cons_append, List.cons_lt_cons_iff]
      exact (List.cons_lt_cons_iff.mp h).imp_right fun ⟨hhead, hrest⟩ =>
        ⟨hhead, ih (Nat.succ.inj hlength) hrest⟩

/-- Behind parts of one length the next parts decide. -/
theorem textOrder_append (hlength : as.length = bs.length) :
    textOrder (String.ofList (as ++ cs)) (String.ofList (bs ++ ds)) =
      (textOrder (String.ofList as) (String.ofList bs)).then
        (textOrder (String.ofList cs) (String.ofList ds)) := by
  simp only [textOrder_eq_compare]
  refine compare_eq_then (fun h => ?_) (fun h => ?_) (fun h => ?_)
  · exact ofList_lt_ofList_iff.mpr (append_lt_append hlength (ofList_lt_ofList_iff.mp h))
  · exact ofList_lt_ofList_iff.mpr (append_lt_append hlength.symm (ofList_lt_ofList_iff.mp h))
  · obtain rfl : as = bs := String.ofList_injective h
    refine compare_eq_compare (fun h => ?_) (fun h => ?_) (fun h => ?_)
    · exact ofList_lt_ofList_iff.mpr (List.append_left_lt (ofList_lt_ofList_iff.mp h))
    · exact ofList_lt_ofList_iff.mpr (List.append_left_lt (ofList_lt_ofList_iff.mp h))
    · rw [String.ofList_injective h]

theorem textOrder_padded (hwidth : 0 < width) (hn : n < 10 ^ width) (hm : m < 10 ^ width) :
    textOrder (String.ofList (Integer.padded width n)) (String.ofList (Integer.padded width m)) =
      compare n m := by
  rw [textOrder_eq_compare]
  refine compare_eq_compare (fun h => ?_) (fun h => ?_) (fun h => by rw [h])
  · exact ofList_lt_ofList_iff.mpr ((Integer.padded_lt_padded_iff hwidth hn hm).mpr h)
  · exact ofList_lt_ofList_iff.mpr ((Integer.padded_lt_padded_iff hwidth hm hn).mpr h)

/-- A field that fills its width decides, and what stands behind it where it is the same. -/
theorem textOrder_padded_append (hwidth : 0 < width) (hn : n < 10 ^ width) (hm : m < 10 ^ width) :
    textOrder (String.ofList (Integer.padded width n ++ cs))
        (String.ofList (Integer.padded width m ++ ds)) =
      (compare n m).then (textOrder (String.ofList cs) (String.ofList ds)) := by
  rw [textOrder_append, textOrder_padded hwidth hn hm]
  rw [Integer.length_padded hwidth hn, Integer.length_padded hwidth hm]

theorem Date.textOrder_chars {d e : Date} (hd : d.HasFourDigitYear) (he : e.HasFourDigitYear) :
    textOrder (String.ofList d.chars) (String.ofList e.chars) = d.order e := by
  have hyear : compare d.year.natAbs e.year.natAbs = compare d.year e.year := by
    obtain ⟨hlow, -⟩ := hd
    obtain ⟨hlow', -⟩ := he
    exact compare_eq_compare (by omega) (by omega) (by omega)
  rw [chars_of_hasFourDigitYear hd, chars_of_hasFourDigitYear he,
    textOrder_padded_append (by decide) hd.natAbs_lt he.natAbs_lt,
    textOrder_padded_append (by decide) d.month_lt e.month_lt,
    textOrder_padded (by decide) d.day_lt e.day_lt, hyear, order]

theorem Time.textOrder_chars (t u : Time) :
    textOrder (String.ofList t.chars) (String.ofList u.chars) = t.order u := by
  obtain ⟨hhour, hminute, hsecond⟩ := t.fields_lt
  obtain ⟨hhour', hminute', hsecond'⟩ := u.fields_lt
  rw [chars, chars, textOrder_padded_append (by decide) hhour hhour',
    textOrder_padded_append (by decide) hminute hminute',
    textOrder_padded (by decide) hsecond hsecond', order]

theorem textOrder_chars_append {d e : Date} (hd : d.HasFourDigitYear) (he : e.HasFourDigitYear)
    (t u : Time) :
    textOrder (String.ofList (d.chars ++ t.chars)) (String.ofList (e.chars ++ u.chars)) =
      (d.order e).then (t.order u) := by
  rw [textOrder_append ((Date.length_chars hd).trans (Date.length_chars he).symm),
    Date.textOrder_chars hd he, Time.textOrder_chars]

end Texts

end Calendar

end RadarQuery
