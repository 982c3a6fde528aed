import RadarQuery.Calendar.Time
import RadarQuery.Proofs.Calendar.Field

/-!
Dates and times as they are written and read. A date whose year has four digits and no sign is
written with eight digits, a time with six, and both are read back. In front of any other
year stands a sign, and a year with a sign is read to the end of the digits, so that nothing
is left for the month: such a date is not read back from its own text.
-/

namespace RadarQuery.Calendar

open Integer

section Fields

variable {year : ℤ} {month : ℕ}

theorem daysIn_le (year : ℤ) (month : ℕ) : daysIn year month ≤ 31 := by
  unfold daysIn
  split
  · split <;> decide
  all_goals decide

theorem month_of_daysIn_pos (h : 0 < daysIn year month) : 1 ≤ month ∧ month ≤ 12 := by
  unfold daysIn at h
  split at h
  all_goals omega

end Fields

namespace Date

variable {d : Date} {year : ℤ} {cs ds rest : List Char}

/-- The year is written without a sign. -/
def HasFourDigitYear (d : Date) : Prop :=
  0 ≤ d.year ∧ d.year ≤ 9999

instance (d : Date) : Decidable d.HasFourDigitYear :=
  inferInstanceAs (Decidable (_ ∧ _))

theorem daysIn_pos (d : Date) : 0 < daysIn d.year d.month :=
  d.day_pos.trans_le d.day_le

theorem month_lt (d : Date) : d.month < 10 ^ 2 :=
  (month_of_daysIn_pos d.daysIn_pos).2.trans_lt (by decide)

theorem day_lt (d : Date) : d.day < 10 ^ 2 :=
  (d.day_le.trans (daysIn_le _ _)).trans_lt (by decide)

theorem HasFourDigitYear.natAbs_lt (h : d.HasFourDigitYear) : d.year.natAbs < 10 ^ 4 := by
  obtain ⟨hlow, hhigh⟩ := h
  omega

theorem ofFields?_eq_some_iff {month day : ℕ} :
    ofFields? year month day = some d ↔ d.year = year ∧ d.month = month ∧ d.day = day := by
  constructor
  · intro h
    unfold ofFields? at h
    split at h
    case isTrue =>
      cases h
      exact ⟨rfl, rfl, rfl⟩
    case isFalse => cases h
  · rintro ⟨rfl, rfl, rfl⟩
    exact dif_pos ⟨d.first_year_le, d.year_le_last, d.day_pos, d.day_le⟩

theorem chars_of_hasFourDigitYear (h : d.HasFourDigitYear) :
    d.chars = padded 4 d.year.natAbs ++ (padded 2 d.month ++ padded 2 d.day) := by
  obtain ⟨hlow, hhigh⟩ := h
  rw [chars, yearChars, if_neg (by omega), if_neg (by omega)]

theorem chars_of_not_hasFourDigitYear (h : ¬d.HasFourDigitYear) :
    ∃ sign ds, (sign = '-' ∨ sign = '+') ∧ d.chars = sign :: ds ∧ ∀ c ∈ ds, c.isDigit := by
  have hdigits : ∀ c ∈ padded 4 d.year.natAbs ++ (padded 2 d.month ++ padded 2 d.day),
      c.isDigit := by
    simp only [List.mem_append]
    rintro c (hc | hc | hc) <;> exact isDigit_of_mem_padded hc
  rw [HasFourDigitYear, not_and_or, not_le, not_le] at h
  rcases h with hnegative | hlong
  · exact ⟨'-', _, Or.inl rfl, by rw [chars, yearChars, if_pos hnegative]; rfl, hdigits⟩
  · exact ⟨'+', _, Or.inr rfl,
      by rw [chars, yearChars, if_neg (by omega), if_pos hlong]; rfl, hdigits⟩

section Written

theorem length_chars (h : d.HasFourDigitYear) : d.chars.length = 8 := by
  rw [chars_of_hasFourDigitYear h, List.length_append, List.length_append,
    length_padded (by decide) h.natAbs_lt, length_padded (by decide) d.month_lt,
    length_padded (by decide) d.day_lt]

/-- Only a sign is no digit. -/
theorem forall_isDigit_chars_iff : (∀ c ∈ d.chars, c.isDigit) ↔ d.HasFourDigitYear := by
  constructor
  · intro hdigits
    by_contra h
    obtain ⟨sign, ds, hsign, hchars, -⟩ := chars_of_not_hasFourDigitYear h
    have hdigit := hdigits sign (by rw [hchars]; exact List.mem_cons_self ..)
    rcases hsign with rfl | rfl <;> cases hdigit
  · intro h
    rw [chars_of_hasFourDigitYear h]
    simp only [List.mem_append]
    rintro c (hc | hc | hc) <;> exact isDigit_of_mem_padded hc

theorem isBlank_of_mem_chars {c : Char} (hc : c ∈ d.chars) : Text.isBlank c = false := by
  by_cases h : d.HasFourDigitYear
  · exact Text.isBlank_of_isDigit (forall_isDigit_chars_iff.mpr h c hc)
  · obtain ⟨sign, ds, hsign, hchars, hds⟩ := chars_of_not_hasFourDigitYear h
    rw [hchars] at hc
    rcases List.mem_cons.mp hc with rfl | hdigit
    · rcases hsign with rfl | rfl <;> rfl
    · exact Text.isBlank_of_isDigit (hds c hdigit)

end Written

section Read

/-- A digit is no sign. -/
theorem readYear_of_isDigit (h : cs.head?.any Char.isDigit) :
    readYear cs = (readField 4 cs).map fun (n, rest) => (withSign false n, rest) := by
  unfold readYear
  rw [trimLeft_of_isDigit h]
  split
  · cases h
  · cases h
  · rfl

/-- Behind a sign all digits are the year's. -/
theorem readYear_of_sign {sign : Char} (hsign : sign = '-' ∨ sign = '+')
    (hds : ∀ c ∈ ds, c.isDigit) (h : readYear (sign :: ds) = some (year, rest)) : rest = [] := by
  have hdrop : ds.dropWhile Char.isDigit = [] := List.dropWhile_eq_nil_iff.mpr hds
  rcases hsign with rfl | rfl
  all_goals
    obtain ⟨n, -, heq⟩ := Option.map_eq_some_iff.mp h
    rw [hdrop] at heq
    exact (congrArg Prod.snd heq).symm

theorem hasFourDigitYear_of_read (h : Date.read cs = some d)
    (hminus : (Text.trimLeft cs).head? ≠ some '-') (hplus : (Text.trimLeft cs).head? ≠ some '+') :
    d.HasFourDigitYear := by
  simp only [Date.read, Option.bind_eq_some_iff, Prod.exists] at h
  obtain ⟨year, afterYear, hyear, month, afterMonth, -, day, rest, -, hdate⟩ := h
  have hdate : ofFields? year month day = some d := by
    split at hdate
    · exact hdate
    · cases hdate
  rw [HasFourDigitYear, (ofFields?_eq_some_iff.mp hdate).1]
  unfold readYear at hyear
  split at hyear
  case h_1 hcs => simp [hcs] at hminus
  case h_2 hcs => simp [hcs] at hplus
  case h_3 =>
    obtain ⟨⟨n, behind⟩, hfield, heq⟩ := Option.map_eq_some_iff.mp hyear
    have hn := lt_of_readField hfield
    have hvalue : (n : ℤ) = year := congrArg Prod.fst heq
    omega

theorem read_chars (h : d.HasFourDigitYear) : Date.read d.chars = some d := by
  have hyear : withSign false d.year.natAbs = d.year := Int.natAbs_of_nonneg h.1
  rw [chars_of_hasFourDigitYear h, Date.read, readYear_of_isDigit (head?_padded_append _ _ _),
    readField_padded (by decide) h.natAbs_lt]
  simp only [Option.map_some, Option.bind_some, readField_padded (by decide) d.month_lt,
    readField_padded_self (by decide) d.day_lt, hyear, List.isEmpty_nil, if_true]
  exact ofFields?_eq_some_iff.mpr ⟨rfl, rfl, rfl⟩

/-- With the digits used up by the year there is no month. -/
theorem read_chars_eq_none (h : ¬d.HasFourDigitYear) : Date.read d.chars = none := by
  obtain ⟨sign, ds, hsign, hchars, hds⟩ := chars_of_not_hasFourDigitYear h
  rw [hchars, Date.read, Option.bind_eq_none_iff]
  rintro ⟨year, rest⟩ hyear
  rw [readYear_of_sign hsign hds hyear]
  rfl

end Read

end Date

namespace Time

variable {t : Time}

theorem ofFields?_eq_some_iff {hour minute second : ℕ} : ofFields? hour minute second = some t ↔
    t.hour = hour ∧ t.minute = minute ∧ t.second = second := by
  constructor
  · intro h
    unfold ofFields? at h
    split at h
    case isTrue =>
      cases h
      exact ⟨rfl, rfl, rfl⟩
    case isFalse => cases h
  · rintro ⟨rfl, rfl, rfl⟩
    exact dif_pos ⟨t.hour_lt, t.minute_lt, t.second_le⟩

theorem ofClock?_eq_some_iff {hour minute second : ℕ} : ofClock? hour minute second = some t ↔
    t.second < 60 ∧ t.hour = hour ∧ t.minute = minute ∧ t.second = second := by
  have hsecond := t.second_le
  rw [ofClock?, Option.filter_eq_some_iff, ofFields?_eq_some_iff, and_comm]
  refine and_congr_left fun _ => ?_
  simp [isLeapSecond]
  omega

theorem fields_lt (t : Time) : t.hour < 10 ^ 2 ∧ t.minute < 10 ^ 2 ∧ t.second < 10 ^ 2 :=
  ⟨t.hour_lt.trans (by decide), t.minute_lt.trans (by decide), t.second_le.trans_lt (by decide)⟩

theorem length_chars (t : Time) : t.chars.length = 6 := by
  obtain ⟨hhour, hminute, hsecond⟩ := t.fields_lt
  rw [chars, List.length_append, List.length_append, length_padded (by decide) hhour,
    length_padded (by decide) hminute, length_padded (by decide) hsecond]

theorem isDigit_of_mem_chars {c : Char} (hc : c ∈ t.chars) : c.isDigit := by
  simp only [chars, List.mem_append] at hc
  rcases hc with hc | hc | hc <;> exact isDigit_of_mem_padded hc

theorem read_chars (t : Time) : Time.read t.chars = some t := by
  obtain ⟨hhour, hminute, hsecond⟩ := t.fields_lt
  simp only [Time.read, chars, readField_padded (by decide) hhour, Option.bind_some,
    readField_padded (by decide) hminute, readField_padded_self (by decide) hsecond,
    List.isEmpty_nil, if_true]
  exact ofFields?_eq_some_iff.mpr ⟨rfl, rfl, rfl⟩

end Time

end RadarQuery.Calendar
