import RadarQuery.Expr.Build
import RadarQuery.Proofs.Calendar.Chronology
import RadarQuery.Proofs.Eval.Calls
import RadarQuery.Proofs.Metadata.Moments

/-!
Calls for dates and times. A call succeeds exactly if its arguments are the fields of a date, of
a time without a leap second, or of both, and its value is their text. That is the text an
attribute holds for them, and texts of years from 0 to 9999 compare as what they stand for.
-/

namespace RadarQuery

open Calendar

namespace Query

theorem dateFields_eq (d : Date) : dateFields d =
    [.integer (.ofInt d.year), .integer (.ofInt d.month), .integer (.ofInt d.day)] := rfl

theorem timeFields_eq {t : Time} (ht : t.second < 60) : timeFields t =
    [.integer (.ofInt t.hour), .integer (.ofInt t.minute), .integer (.ofInt t.second)] := by
  have hclock : Min.min (t.second : ℤ) 59 = t.second := by omega
  rw [← hclock]
  rfl

end Query

open Query

namespace Procedure

variable {p : Procedure} {d : Date} {t : Time}

section Arguments

variable {e : Expr} {low high : ℤ} {n : Int64}

theorem integer?_eq_some_iff : e.integer? = some n ↔ e = .integer n := by
  cases e with
  | list items => simp [Expr.integer?]
  | atom a => cases a <;> simp [Expr.integer?]

theorem integerArg_eq_ok_iff :
    p.integerArg low high e = .ok n ↔ e = .integer n ∧ low ≤ n.toInt ∧ n.toInt < high := by
  unfold integerArg
  split
  case h_1 hnone =>
    simp only [reduceCtorEq, false_iff, not_and]
    rintro rfl
    cases hnone
  case h_2 m hsome =>
    obtain rfl := integer?_eq_some_iff.mp hsome
    split
    case isTrue hrange =>
      simp only [Except.ok.injEq, Expr.atom.injEq, Atom.integer.injEq]
      constructor
      · rintro rfl
        exact ⟨rfl, hrange⟩
      · exact fun h => h.1
    case isFalse hrange =>
      simp only [reduceCtorEq, false_iff, Expr.atom.injEq, Atom.integer.injEq]
      rintro ⟨rfl, h⟩
      exact hrange h

theorem toInt_ofInt_year (d : Date) : (Int64.ofInt d.year).toInt = d.year := by
  have hlow := d.first_year_le
  have hhigh := d.year_le_last
  exact Int64.toInt_ofInt_of_le (by omega) (by omega)

theorem toInt_ofInt_field {field : ℕ} (h : field < 10 ^ 2) : (Int64.ofInt field).toInt = field :=
  Int64.toInt_ofInt_of_le (by omega) (by omega)

theorem yearArg_year (d : Date) : p.yearArg (.integer (.ofInt d.year)) = .ok (.ofInt d.year) := by
  have hlow := d.first_year_le
  have hhigh := d.year_le_last
  rw [yearArg, integerArg_eq_ok_iff, toInt_ofInt_year]
  norm_num
  omega

theorem fieldArg_field {field : ℕ} (h : field < 10 ^ 2) :
    p.fieldArg (.integer (.ofInt field)) = .ok (.ofInt field) := by
  rw [fieldArg, integerArg_eq_ok_iff, toInt_ofInt_field h]
  norm_num
  omega

end Arguments

section Fields

variable {year month day hour minute second : Expr}

theorem dateArg_eq_ok_iff :
    p.dateArg year month day = .ok d ↔ [year, month, day] = dateFields d := by
  constructor
  · intro h
    obtain ⟨y, hy, hmonthDay⟩ := bind_eq_ok_iff.mp h
    obtain ⟨m, hm, hdayOnly⟩ := bind_eq_ok_iff.mp hmonthDay
    obtain ⟨n, hn, hdate⟩ := bind_eq_ok_iff.mp hdayOnly
    obtain ⟨rfl, -⟩ := integerArg_eq_ok_iff.mp hy
    obtain ⟨rfl, hmonth, -⟩ := integerArg_eq_ok_iff.mp hm
    obtain ⟨rfl, hday, -⟩ := integerArg_eq_ok_iff.mp hn
    split at hdate
    case h_1 value hfields =>
      cases hdate
      obtain ⟨hy, hm, hn⟩ := Date.ofFields?_eq_some_iff.mp hfields
      simp only [dateFields_eq, hy, hm, hn, Int.toNat_of_nonneg hmonth, Int.toNat_of_nonneg hday,
        Int64.ofInt_toInt]
    case h_2 => cases hdate
  · intro h
    simp only [dateFields_eq, List.cons.injEq, and_true] at h
    obtain ⟨rfl, rfl, rfl⟩ := h
    have hfields : Date.ofFields? d.year d.month d.day = some d :=
      Date.ofFields?_eq_some_iff.mpr ⟨rfl, rfl, rfl⟩
    simp only [dateArg, yearArg_year, fieldArg_field d.month_lt, fieldArg_field d.day_lt, bind,
      Except.bind, toInt_ofInt_year, toInt_ofInt_field d.month_lt, toInt_ofInt_field d.day_lt,
      Int.toNat_natCast, hfields]

/-- No time with a leap second is called for. -/
theorem timeArg_eq_ok_iff : p.timeArg hour minute second = .ok t ↔
    t.second < 60 ∧ [hour, minute, second] = timeFields t := by
  constructor
  · intro h
    obtain ⟨i, hi, hminuteSecond⟩ := bind_eq_ok_iff.mp h
    obtain ⟨m, hm, hsecondOnly⟩ := bind_eq_ok_iff.mp hminuteSecond
    obtain ⟨n, hn, hclock⟩ := bind_eq_ok_iff.mp hsecondOnly
    obtain ⟨rfl, hhour, -⟩ := integerArg_eq_ok_iff.mp hi
    obtain ⟨rfl, hminute, -⟩ := integerArg_eq_ok_iff.mp hm
    obtain ⟨rfl, hsecond, -⟩ := integerArg_eq_ok_iff.mp hn
    split at hclock
    case h_1 value hfields =>
      cases hclock
      obtain ⟨ht, hi, hm, hn⟩ := Time.ofClock?_eq_some_iff.mp hfields
      refine ⟨ht, ?_⟩
      simp only [timeFields_eq ht, hi, hm, hn, Int.toNat_of_nonneg hhour,
        Int.toNat_of_nonneg hminute, Int.toNat_of_nonneg hsecond, Int64.ofInt_toInt]
    case h_2 => cases hclock
  · rintro ⟨ht, h⟩
    simp only [timeFields_eq ht, List.cons.injEq, and_true] at h
    obtain ⟨rfl, rfl, rfl⟩ := h
    obtain ⟨hhour, hminute, hsecond⟩ := t.fields_lt
    have hfields : Time.ofClock? t.hour t.minute t.second = some t :=
      Time.ofClock?_eq_some_iff.mpr ⟨ht, rfl, rfl, rfl⟩
    simp only [timeArg, fieldArg_field hhour, fieldArg_field hminute, fieldArg_field hsecond, bind,
      Except.bind, toInt_ofInt_field hhour, toInt_ofInt_field hminute, toInt_ofInt_field hsecond,
      Int.toNat_natCast, hfields]

end Fields

section Calls

variable {args : List Expr} {value : Expr}

theorem call_date_eq_ok_iff : Procedure.date.call args = .ok value ↔
    ∃ d, args = dateFields d ∧ value = .text (String.ofList d.chars) := by
  constructor
  · intro h
    unfold call at h
    split at h
    case h_10 =>
      obtain ⟨d, hd, rfl⟩ := map_eq_ok_iff.mp h
      exact ⟨d, dateArg_eq_ok_iff.mp hd, rfl⟩
    all_goals contradiction
  · rintro ⟨d, hargs, rfl⟩
    rw [hargs, dateFields_eq, call, dateArg_eq_ok_iff.mpr (dateFields_eq d).symm]
    rfl

theorem call_time_eq_ok_iff : Procedure.time.call args = .ok value ↔
    ∃ t, t.second < 60 ∧ args = timeFields t ∧ value = .text (String.ofList t.chars) := by
  constructor
  · intro h
    unfold call at h
    split at h
    case h_11 =>
      obtain ⟨t, hvalue, rfl⟩ := map_eq_ok_iff.mp h
      obtain ⟨ht, hfields⟩ := timeArg_eq_ok_iff.mp hvalue
      exact ⟨t, ht, hfields, rfl⟩
    all_goals contradiction
  · rintro ⟨t, ht, hargs, rfl⟩
    rw [hargs, timeFields_eq ht, call, timeArg_eq_ok_iff.mpr ⟨ht, (timeFields_eq ht).symm⟩]
    rfl

theorem call_datetime_eq_ok_iff : Procedure.datetime.call args = .ok value ↔
    ∃ d t, t.second < 60 ∧ args = dateFields d ++ timeFields t ∧
      value = .text (String.ofList (d.chars ++ t.chars)) := by
  constructor
  · intro h
    unfold call at h
    split at h
    case h_12 =>
      obtain ⟨d, hdate, hrest⟩ := bind_eq_ok_iff.mp h
      obtain ⟨t, hclock, hvalue⟩ := bind_eq_ok_iff.mp hrest
      obtain ⟨ht, hfields⟩ := timeArg_eq_ok_iff.mp hclock
      refine ⟨d, t, ht, ?_, (Except.ok.inj hvalue).symm⟩
      rw [← dateArg_eq_ok_iff.mp hdate, ← hfields]
      rfl
    all_goals contradiction
  · rintro ⟨d, t, ht, hargs, rfl⟩
    rw [hargs, dateFields_eq, timeFields_eq ht]
    simp only [List.cons_append, List.nil_append, call,
      dateArg_eq_ok_iff.mpr (dateFields_eq d).symm,
      timeArg_eq_ok_iff.mpr ⟨ht, (timeFields_eq ht).symm⟩]
    rfl

end Calls

end Procedure

/-- A date is called for with its own fields only. -/
theorem Query.dateFields_injective : Function.Injective dateFields := by
  intro d e h
  have hd : Procedure.date.dateArg (.integer (.ofInt d.year)) (.integer (.ofInt d.month))
      (.integer (.ofInt d.day)) = .ok d :=
    Procedure.dateArg_eq_ok_iff.mpr (dateFields_eq d).symm
  exact Except.ok.inj (hd.symm.trans (Procedure.dateArg_eq_ok_iff.mpr h))

open RadarQuery.Expr

section Queries

variable {tree : Option Metadata} {args : List Expr} {value : Expr} {d : Date} {t : Time}

theorem eval_call_eq_ok_iff {name : String} {p : Procedure}
    (h : Procedure.lookup name tree = some p) : (Query.call name args).eval tree = .ok value ↔
      ∃ values, evalItems tree args = .ok values ∧ p.call values = .ok value := by
  rw [Query.call, eval_call h]
  exact bind_eq_ok_iff

theorem eval_date_eq_ok_iff : (Query.call "date" args).eval tree = .ok value ↔
    ∃ d, evalItems tree args = .ok (dateFields d) ∧ value = .text (String.ofList d.chars) := by
  rw [eval_call_eq_ok_iff (p := .date) rfl]
  simp only [Procedure.call_date_eq_ok_iff]
  constructor
  · rintro ⟨_, hargs, d, rfl, rfl⟩
    exact ⟨d, hargs, rfl⟩
  · rintro ⟨d, hargs, rfl⟩
    exact ⟨_, hargs, d, rfl, rfl⟩

theorem eval_time_eq_ok_iff : (Query.call "time" args).eval tree = .ok value ↔
    ∃ t, t.second < 60 ∧ evalItems tree args = .ok (timeFields t) ∧
      value = .text (String.ofList t.chars) := by
  rw [eval_call_eq_ok_iff (p := .time) rfl]
  simp only [Procedure.call_time_eq_ok_iff]
  constructor
  · rintro ⟨_, hargs, t, ht, rfl, rfl⟩
    exact ⟨t, ht, hargs, rfl⟩
  · rintro ⟨t, ht, hargs, rfl⟩
    exact ⟨_, hargs, t, ht, rfl, rfl⟩

theorem eval_datetime_eq_ok_iff : (Query.call "datetime" args).eval tree = .ok value ↔
    ∃ d t, t.second < 60 ∧ evalItems tree args = .ok (dateFields d ++ timeFields t) ∧
      value = .text (String.ofList (d.chars ++ t.chars)) := by
  rw [eval_call_eq_ok_iff (p := .datetime) rfl]
  simp only [Procedure.call_datetime_eq_ok_iff]
  constructor
  · rintro ⟨_, hargs, d, t, ht, rfl, rfl⟩
    exact ⟨d, t, ht, hargs, rfl⟩
  · rintro ⟨d, t, ht, hargs, rfl⟩
    exact ⟨_, hargs, d, t, ht, rfl, rfl⟩

end Queries

/-- The call that is written for a date has the text that an attribute holds for it as its value,
and so has the call for a time, leap seconds aside, which can be read but not called for. The
call for both has the one text behind the other. An attribute with such a text is read as
the time again, and as the date unless the year needs a sign. -/
theorem Query.eval_date_time (tree : Option Metadata) (d : Date) (t : Time) :
    (∃ day, Scalar.ofDate d = .text day ∧ (Query.date d).eval tree = .ok (.text day) ∧
      (d.HasFourDigitYear → (Scalar.text day).date? = some d ∧
        ScalarType.date.coerce (.text day) = .ok (.text day))) ∧
    (∃ clock, Scalar.ofTime t = .text clock ∧
      (t.second < 60 → (Query.time t).eval tree = .ok (.text clock)) ∧
      (Scalar.text clock).time? = some t ∧
        ScalarType.time.coerce (.text clock) = .ok (.text clock)) ∧
    ∃ day clock, Scalar.ofDate d = .text day ∧ Scalar.ofTime t = .text clock ∧
      (t.second < 60 → (Query.datetime d t).eval tree = .ok (.text (day ++ clock))) := by
  refine ⟨⟨_, rfl, eval_date_eq_ok_iff.mpr ⟨d, rfl, rfl⟩, fun hyear =>
      ⟨Scalar.date?_ofDate hyear, ScalarType.coerce_ofDate hyear⟩⟩,
    ⟨_, rfl, fun ht => eval_time_eq_ok_iff.mpr ⟨t, ht, rfl, rfl⟩, Scalar.time?_ofTime t,
      ScalarType.coerce_ofTime t⟩,
    _, _, rfl, rfl, fun ht => eval_datetime_eq_ok_iff.mpr ⟨d, t, ht, rfl, ?_⟩⟩
  rw [String.ofList_append]

/-- A leap day, just before midnight. -/
theorem Query.eval_date_time_leap_day :
    (Query.date ⟨2024, 2, 29, by decide, by decide, by decide, by decide⟩).eval none =
      .ok (.text "20240229") ∧
    (Query.datetime ⟨2024, 2, 29, by decide, by decide, by decide, by decide⟩
      ⟨23, 59, 59, by decide, by decide, by decide⟩).eval none = .ok (.text "20240229235959") ∧
    ScalarType.date.coerce (.text "20240229") = .ok (.text "20240229") ∧
    ScalarType.time.coerce (.text "235959") = .ok (.text "235959") := by
  obtain ⟨⟨day, hday, hdate, hread⟩, ⟨clock, hclock, -, -, htime⟩, day', clock', hday', hclock',
    hboth⟩ := eval_date_time none ⟨2024, 2, 29, by decide, by decide, by decide, by decide⟩
      ⟨23, 59, 59, by decide, by decide, by decide⟩
  obtain rfl : "20240229" = day := Scalar.text.inj hday
  obtain rfl : "20240229" = day' := Scalar.text.inj hday'
  obtain rfl : "235959" = clock := Scalar.text.inj hclock
  obtain rfl : "235959" = clock' := Scalar.text.inj hclock'
  exact ⟨hdate, hboth (by decide), (hread (by decide)).2, htime⟩

namespace Comparison

section Texts

variable {d e : Date} {t u : Time}

theorem apply_dates (c : Comparison) (hd : d.HasFourDigitYear) (he : e.HasFourDigitYear) :
    c.apply (.text (String.ofList d.chars)) (.text (String.ofList e.chars)) =
      .ok (c.admits (compare d.dayNumber e.dayNumber)) := by
  rw [apply_texts, Date.textOrder_chars hd he, Date.compare_dayNumber]

theorem apply_times (c : Comparison) (ht : t.second < 60) (hu : u.second < 60) :
    c.apply (.text (String.ofList t.chars)) (.text (String.ofList u.chars)) =
      .ok (c.admits (compare t.secondNumber u.secondNumber)) := by
  rw [apply_texts, Time.textOrder_chars, Time.compare_secondNumber ht hu]

theorem apply_instants (c : Comparison) (hd : d.HasFourDigitYear) (he : e.HasFourDigitYear)
    (ht : t.second < 60) (hu : u.second < 60) :
    c.apply (.text (String.ofList (d.chars ++ t.chars)))
        (.text (String.ofList (e.chars ++ u.chars))) =
      .ok (c.admits (compare (instant d t) (instant e u))) := by
  rw [apply_texts, textOrder_chars_append hd he, compare_instant ht hu]

end Texts

/-- The values of two calls for dates are compared as the numbers of their days, those of two calls
for times as the seconds in the day, and those of two calls for both as the seconds from one
beginning, if the years are from 0 to 9999. So is the value of a call for a date with an
attribute that is read as one, from both sides. -/
theorem apply_moments (tree : Option Metadata) (c : Comparison) :
    (∀ args args' a b, (Query.call "date" args).eval tree = .ok a →
      (Query.call "date" args').eval tree = .ok b →
      ∃ d e : Date, evalItems tree args = .ok (dateFields d) ∧
        evalItems tree args' = .ok (dateFields e) ∧
        (d.HasFourDigitYear → e.HasFourDigitYear →
          c.apply a b = .ok (c.admits (compare d.dayNumber e.dayNumber)))) ∧
    (∀ args args' a b, (Query.call "time" args).eval tree = .ok a →
      (Query.call "time" args').eval tree = .ok b →
      ∃ t u : Time, t.second < 60 ∧ u.second < 60 ∧
        evalItems tree args = .ok (timeFields t) ∧
        evalItems tree args' = .ok (timeFields u) ∧
        c.apply a b = .ok (c.admits (compare t.secondNumber u.secondNumber))) ∧
    (∀ args args' a b, (Query.call "datetime" args).eval tree = .ok a →
      (Query.call "datetime" args').eval tree = .ok b →
      ∃ (d e : Date) (t u : Time), t.second < 60 ∧ u.second < 60 ∧
        evalItems tree args = .ok (dateFields d ++ timeFields t) ∧
        evalItems tree args' = .ok (dateFields e ++ timeFields u) ∧
        (d.HasFourDigitYear → e.HasFourDigitYear →
          c.apply a b = .ok (c.admits (compare (instant d t) (instant e u))))) ∧
    ∀ args text a b, (Query.call "date" args).eval tree = .ok a →
      ScalarType.date.coerce (.text text) = .ok b →
      ∃ d e : Date, evalItems tree args = .ok (dateFields d) ∧
        (Scalar.text text).date? = some e ∧
        (d.HasFourDigitYear → e.HasFourDigitYear →
          c.apply a b = .ok (c.admits (compare d.dayNumber e.dayNumber)) ∧
          c.apply b a = .ok (c.admits (compare e.dayNumber d.dayNumber))) := by
  refine ⟨?_, ?_, ?_, ?_⟩
  · intro args args' a b ha hb
    obtain ⟨d, hd, rfl⟩ := eval_date_eq_ok_iff.mp ha
    obtain ⟨e, he, rfl⟩ := eval_date_eq_ok_iff.mp hb
    exact ⟨d, e, hd, he, apply_dates c⟩
  · intro args args' a b ha hb
    obtain ⟨t, ht, hargs, rfl⟩ := eval_time_eq_ok_iff.mp ha
    obtain ⟨u, hu, hargs', rfl⟩ := eval_time_eq_ok_iff.mp hb
    exact ⟨t, u, ht, hu, hargs, hargs', apply_times c ht hu⟩
  · intro args args' a b ha hb
    obtain ⟨d, t, ht, hargs, rfl⟩ := eval_datetime_eq_ok_iff.mp ha
    obtain ⟨e, u, hu, hargs', rfl⟩ := eval_datetime_eq_ok_iff.mp hb
    exact ⟨d, e, t, u, ht, hu, hargs, hargs', fun hd he => apply_instants c hd he ht hu⟩
  · intro args text a b ha hb
    obtain ⟨d, hd, rfl⟩ := eval_date_eq_ok_iff.mp ha
    obtain ⟨e, he, rfl⟩ := ScalarType.coerce_date_eq_ok_iff.mp hb
    exact ⟨d, e, hd, he, fun hyear hyear' =>
      ⟨apply_dates c hyear hyear', apply_dates c hyear' hyear⟩⟩

/-- The last day of a year comes before the first of the next one, which an attribute holds with
short fields. -/
theorem apply_moments_turn_of_year :
    (Query.call "date" [integer 1999, integer 12, integer 31]).eval none = .ok (text "19991231") ∧
    ScalarType.date.coerce (.text "2000 1 1") = .ok (text "20000101") ∧
    lt.apply (text "19991231") (text "20000101") = .ok true ∧
    lt.apply (text "20000101") (text "19991231") = .ok false := by
  have hlast : (Query.call "date" [integer 1999, integer 12, integer 31]).eval none =
      .ok (text "19991231") := rfl
  have hfirst : ScalarType.date.coerce (.text "2000 1 1") = .ok (text "20000101") := rfl
  obtain ⟨d, e, hd, he, hcompare⟩ := (apply_moments none lt).2.2.2 _ _ _ _ hlast hfirst
  obtain rfl : d = ⟨1999, 12, 31, by decide, by decide, by decide, by decide⟩ :=
    dateFields_injective (Except.ok.inj hd.symm)
  obtain rfl : ⟨2000, 1, 1, by decide, by decide, by decide, by decide⟩ = e := Option.some.inj he
  exact ⟨hlast, hfirst, hcompare (by decide) (by decide)⟩

end Comparison

end RadarQuery
