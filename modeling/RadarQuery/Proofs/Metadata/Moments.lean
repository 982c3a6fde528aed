import RadarQuery.Metadata.Reference
import RadarQuery.Proofs.Calendar.Reading
import RadarQuery.Proofs.Metadata.Resolution
import RadarQuery.Proofs.Text.Fields

/-!
Dates and times in attributes. What an attribute holds is read with blanks around and between
the fields, with fields that are short and with signs in front of the year, and a leap second
counts as one. What comes out is the canonical text, of eight digits for a date and of
six for a time, and this is read as itself. Only years that need a sign are beyond it.
-/

namespace RadarQuery

open Calendar

def IsDigits (length : ℕ) (s : String) : Prop :=
  s.toList.length = length ∧ ∀ c ∈ s.toList, c.isDigit

namespace Scalar

variable {d : Date}

theorem date?_ofDate (h : d.HasFourDigitYear) : (ofDate d).date? = some d := by
  simp only [ofDate, date?, text?, Option.bind_some, String.toList_ofList,
    Text.trim_of_forall fun _ => Date.isBlank_of_mem_chars, Date.read_chars h]

theorem date?_ofDate_eq_none (h : ¬d.HasFourDigitYear) : (ofDate d).date? = none := by
  simp only [ofDate, date?, text?, Option.bind_some, String.toList_ofList,
    Text.trim_of_forall fun _ => Date.isBlank_of_mem_chars, Date.read_chars_eq_none h]

theorem time?_ofTime (t : Time) : (ofTime t).time? = some t := by
  have hblank : ∀ c ∈ t.chars, Text.isBlank c = false := fun c hc =>
    Text.isBlank_of_isDigit (Time.isDigit_of_mem_chars hc)
  simp only [ofTime, time?, text?, Option.bind_some, String.toList_ofList,
    Text.trim_of_forall hblank, Time.read_chars]

theorem isDigits_date_iff : IsDigits 8 (String.ofList d.chars) ↔ d.HasFourDigitYear := by
  rw [IsDigits, String.toList_ofList, Date.forall_isDigit_chars_iff, and_iff_right_iff_imp]
  exact Date.length_chars

theorem isDigits_time (t : Time) : IsDigits 6 (String.ofList t.chars) := by
  rw [IsDigits, String.toList_ofList]
  exact ⟨t.length_chars, fun _ => Time.isDigit_of_mem_chars⟩

/-- A year that needs a sign is read behind one. -/
theorem sign_of_date? {text : String} (hdate : (Scalar.text text).date? = some d)
    (h : ¬d.HasFourDigitYear) : (Text.trim text.toList).head? = some '-' ∨
      (Text.trim text.toList).head? = some '+' := by
  by_contra hsign
  rw [not_or, ← Text.trimLeft_trim text.toList] at hsign
  exact h (Date.hasFourDigitYear_of_read hdate hsign.1 hsign.2)

end Scalar

namespace ScalarType

variable {v : Scalar} {e : Expr}

theorem coerce_date_eq_ok_iff :
    date.coerce v = .ok e ↔ ∃ d, v.date? = some d ∧ e = .text (String.ofList d.chars) := by
  simp only [coerce_eq_ok_iff, read?, Option.map_eq_some_iff, @eq_comm _ e]

theorem coerce_time_eq_ok_iff :
    time.coerce v = .ok e ↔ ∃ t, v.time? = some t ∧ e = .text (String.ofList t.chars) := by
  simp only [coerce_eq_ok_iff, read?, Option.map_eq_some_iff, @eq_comm _ e]

theorem coerce_ofDate {d : Date} (h : d.HasFourDigitYear) :
    date.coerce (.ofDate d) = .ok (.text (String.ofList d.chars)) :=
  coerce_date_eq_ok_iff.mpr ⟨d, Scalar.date?_ofDate h, rfl⟩

theorem coerce_ofTime (t : Time) : time.coerce (.ofTime t) = .ok (.text (String.ofList t.chars)) :=
  coerce_time_eq_ok_iff.mpr ⟨t, Scalar.time?_ofTime t, rfl⟩

/-- A text that is read as a time gives six digits which are read as themselves, and a text that
is read as a date of a year from 0 to 9999 gives eight such digits. It takes a sign in the
text to get another year, and what that gives is neither eight digits nor a date again. -/
theorem coerce_canonical (text s : String) :
    (date.coerce (.text text) = .ok (.text s) → ∃ d, (Scalar.text text).date? = some d ∧
      (d.HasFourDigitYear → IsDigits 8 s ∧ date.coerce (.text s) = .ok (.text s)) ∧
      (¬d.HasFourDigitYear → ¬IsDigits 8 s ∧
        date.coerce (.text s) = .error (.typeError (.attributeValue (.text s) .date)) ∧
        ((Text.trim text.toList).head? = some '-' ∨ (Text.trim text.toList).head? = some '+'))) ∧
    (time.coerce (.text text) = .ok (.text s) →
      IsDigits 6 s ∧ time.coerce (.text s) = .ok (.text s)) := by
  constructor
  · intro h
    obtain ⟨d, hdate, heq⟩ := coerce_date_eq_ok_iff.mp h
    obtain rfl : s = String.ofList d.chars := by simpa using heq
    refine ⟨d, hdate, fun hyear => ⟨Scalar.isDigits_date_iff.mpr hyear, coerce_ofDate hyear⟩,
      fun hyear => ⟨mt Scalar.isDigits_date_iff.mp hyear, ?_, Scalar.sign_of_date? hdate hyear⟩⟩
    exact coerce_eq_error (by rw [read?, ← Scalar.ofDate, Scalar.date?_ofDate_eq_none hyear]; rfl)
  · intro h
    obtain ⟨t, -, heq⟩ := coerce_time_eq_ok_iff.mp h
    obtain rfl : s = String.ofList t.chars := by simpa using heq
    exact ⟨Scalar.isDigits_time t, coerce_ofTime t⟩

/-- Blanks, short fields and a leap second go into canonical texts, a year of five digits does
not. -/
theorem coerce_canonical_spaced :
    (date.coerce (.text " +2024 2 29") = .ok (.text "20240229") ∧ IsDigits 8 "20240229" ∧
      date.coerce (.text "20240229") = .ok (.text "20240229")) ∧
    (date.coerce (.text "+12345 0101") = .ok (.text "+123450101") ∧
      date.coerce (.text "+123450101") =
        .error (.typeError (.attributeValue (.text "+123450101") .date))) ∧
    time.coerce (.text "2359 60") = .ok (.text "235960") ∧ IsDigits 6 "235960" ∧
      time.coerce (.text "235960") = .ok (.text "235960") := by
  have hleap : date.coerce (.text " +2024 2 29") = .ok (.text "20240229") := rfl
  have hlong : date.coerce (.text "+12345 0101") = .ok (.text "+123450101") := rfl
  have hsecond : time.coerce (.text "2359 60") = .ok (.text "235960") := rfl
  obtain ⟨d, hdate, hcanonical, -⟩ := (coerce_canonical _ _).1 hleap
  obtain ⟨e, hdate', -, hrefused⟩ := (coerce_canonical _ _).1 hlong
  have hyear : d.year = 2024 := by
    have hfields : (Scalar.text " +2024 2 29").date? = Date.ofFields? 2024 2 29 := rfl
    rw [hfields] at hdate
    exact (Date.ofFields?_eq_some_iff.mp hdate).1
  have hyear' : e.year = 12345 := by
    have hfields : (Scalar.text "+12345 0101").date? = Date.ofFields? 12345 1 1 := rfl
    rw [hfields] at hdate'
    exact (Date.ofFields?_eq_some_iff.mp hdate').1
  refine ⟨⟨hleap, hcanonical ?_⟩, ⟨hlong, (hrefused ?_).2.1⟩, hsecond,
    (coerce_canonical _ _).2 hsecond⟩
  · simp [Date.HasFourDigitYear, hyear]
  · simp [Date.HasFourDigitYear, hyear']

/-- Not every text that is read as a date gives eight digits, or what is read again. -/
theorem coerce_date_not_canonical :
    date.coerce (.text "+12345 0101") = .ok (.text "+123450101") ∧ ¬IsDigits 8 "+123450101" ∧
      date.coerce (.text "+123450101") ≠ .ok (.text "+123450101") := by
  refine ⟨rfl, fun h => absurd h.1 (by decide), fun h => ?_⟩
  have herror : date.coerce (.text "+123450101") =
      .error (.typeError (.attributeValue (.text "+123450101") .date)) := rfl
  rw [herror] at h
  cases h

end ScalarType

end RadarQuery
