import RadarQuery.Proofs.Double.Range

/-!
The form of numerals. One sign may stand in front of the body of a numeral. The body of an
integer is made of digits; that of a float is digits, then a fraction or none, then an
exponent or none. What is read is the number that is spelled, and a body that starts with a
digit and is of neither form is not read.
-/

namespace RadarQuery

namespace Integer

/-- A word with one sign in front of its body, a minus or not, or without a sign. -/
inductive Signed : List Char → Bool → List Char → Prop
  | minus (body : List Char) : Signed ('-' :: body) true body
  | plus (body : List Char) : Signed ('+' :: body) false body
  | bare {body : List Char} : body.head? ≠ some '-' → body.head? ≠ some '+' →
      Signed body false body

theorem signed_takeSign (word : List Char) : Signed word (takeSign word).1 (takeSign word).2 := by
  unfold takeSign
  split
  case h_1 body => exact .minus body
  case h_2 body => exact .plus body
  case h_3 body hminus hplus =>
    refine .bare ?_ ?_
    · intro hhead
      obtain ⟨cs, rfl⟩ := List.head?_eq_some_iff.mp hhead
      exact hminus cs rfl
    · intro hhead
      obtain ⟨cs, rfl⟩ := List.head?_eq_some_iff.mp hhead
      exact hplus cs rfl

theorem Signed.takeSign_eq {word body : List Char} {negative : Bool}
    (h : Signed word negative body) : takeSign word = (negative, body) := by
  cases h with
  | minus => rfl
  | plus => rfl
  | bare hminus hplus =>
    unfold takeSign
    split
    · simp at hminus
    · simp at hplus
    · rfl

theorem natural?_eq_some_iff {ds : List Char} {n : ℕ} :
    natural? ds = some n ↔ ds ≠ [] ∧ (∀ c ∈ ds, c.isDigit) ∧ n = Nat.ofDigitChars 10 ds 0 := by
  constructor
  · intro h
    unfold natural? at h
    split at h
    case isTrue hds =>
      rw [Bool.and_eq_true, List.all_eq_true] at hds
      exact ⟨by simpa using hds.1, hds.2, (Option.some.inj h).symm⟩
    case isFalse => cases h
  · rintro ⟨hne, hds, rfl⟩
    exact natural?_of_isDigit hne hds

theorem narrow?_eq_some_iff {m : ℤ} {n : Int64} : narrow? m = some n ↔ n.toInt = m := by
  constructor
  · intro h
    unfold narrow? at h
    split at h
    case isTrue hrange =>
      rw [Int64.toInt_minValue, Int64.toInt_maxValue] at hrange
      rw [← Option.some.inj h]
      exact Int64.toInt_ofInt_of_le hrange.1 (by omega)
    case isFalse => cases h
  · rintro rfl
    exact narrow?_toInt n

theorem exists_toInt_eq_iff {m : ℤ} : (∃ n : Int64, n.toInt = m) ↔ -2 ^ 63 ≤ m ∧ m < 2 ^ 63 := by
  constructor
  · rintro ⟨n, rfl⟩
    exact ⟨n.le_toInt, n.toInt_lt⟩
  · intro h
    exact ⟨Int64.ofInt m, Int64.toInt_ofInt_of_le h.1 h.2⟩

/-- An integer is read from digits behind a sign or none, if 64 bits hold what they spell. -/
theorem Signed.read_eq_some_iff {word body : List Char} {negative : Bool}
    (h : Signed word negative body) {n : Int64} :
    read word = some n ↔ body ≠ [] ∧ (∀ c ∈ body, c.isDigit) ∧
      n.toInt = withSign negative (Nat.ofDigitChars 10 body 0) := by
  simp only [read, h.takeSign_eq, Option.bind_eq_some_iff, natural?_eq_some_iff,
    narrow?_eq_some_iff]
  constructor
  · rintro ⟨m, ⟨hne, hbody, rfl⟩, hn⟩
    exact ⟨hne, hbody, hn⟩
  · rintro ⟨hne, hbody, hn⟩
    exact ⟨_, ⟨hne, hbody, rfl⟩, hn⟩

end Integer

namespace Double

/-- A fraction as it is written, and its digits: a point and any number of them, or nothing. -/
inductive Fraction : List Char → List Char → Prop
  | absent : Fraction [] []
  | point {digits : List Char} : (∀ c ∈ digits, c.isDigit) → Fraction ('.' :: digits) digits

/-- An exponent as it is written, and its value: digits behind a letter and a sign or none, or
nothing. -/
inductive Exponent : List Char → ℤ → Prop
  | absent : Exponent [] 0
  | letter {c : Char} {cs digits : List Char} {negative : Bool} : c = 'e' ∨ c = 'E' →
      Integer.Signed cs negative digits → digits ≠ [] → (∀ d ∈ digits, d.isDigit) →
      Exponent (c :: cs) (Integer.withSign negative (Nat.ofDigitChars 10 digits 0))

inductive Numeral : List Char → Digits → Prop
  | parts {whole fraction exponent digits : List Char} {power : ℤ} : whole ≠ [] →
      (∀ c ∈ whole, c.isDigit) → Fraction fraction digits → Exponent exponent power →
      Numeral (whole ++ (fraction ++ exponent))
        ⟨Nat.ofDigitChars 10 (whole ++ digits) 0, power - digits.length⟩

theorem Fraction.isDigit {fraction digits : List Char} (h : Fraction fraction digits) :
    ∀ c ∈ digits, c.isDigit := by
  cases h with
  | absent => exact fun c hc => absurd hc List.not_mem_nil
  | point hdigits => exact hdigits

theorem readExponent_eq_some_iff {cs : List Char} {power : ℤ} :
    readExponent cs = some power ↔ Exponent cs power := by
  constructor
  · intro h
    cases cs with
    | nil =>
      obtain rfl : 0 = power := Option.some.inj h
      exact .absent
    | cons c cs =>
      rw [readExponent] at h
      split at h
      case isTrue hc =>
        obtain ⟨n, hn, rfl⟩ := Option.map_eq_some_iff.mp h
        obtain ⟨hne, hdigits, rfl⟩ := Integer.natural?_eq_some_iff.mp hn
        exact .letter hc (Integer.signed_takeSign cs) hne hdigits
      case isFalse => cases h
  · intro h
    cases h with
    | absent => rfl
    | letter hc hsigned hne hdigits =>
      simp only [readExponent, hc, if_true, hsigned.takeSign_eq,
        Integer.natural?_of_isDigit hne hdigits, Option.map_some]

/-- An exponent starts neither with a digit nor with a point. -/
theorem Exponent.head? {cs : List Char} {power : ℤ} (h : Exponent cs power) :
    cs.head?.any (fun c => c.isDigit || c == '.') = false := by
  cases h with
  | absent => rfl
  | letter hc => rcases hc with rfl | rfl <;> rfl

theorem takeMantissa_parts {whole fraction exponent digits : List Char} {power : ℤ}
    (hwhole : ∀ c ∈ whole, c.isDigit) (hfraction : Fraction fraction digits)
    (hexponent : Exponent exponent power) :
    takeMantissa (whole ++ (fraction ++ exponent)) = (whole, digits, exponent) := by
  have hhead := hexponent.head?
  cases hfraction with
  | absent => exact takeMantissa_whole exponent hwhole hhead
  | point hdigits =>
    have hdigit : exponent.head?.any Char.isDigit = false := by
      cases exponent <;> simp_all
    exact takeMantissa_point exponent hwhole hdigits hdigit

theorem exists_fraction_of_takeMantissa {cs whole digits rest : List Char}
    (h : takeMantissa cs = (whole, digits, rest)) :
    whole = cs.takeWhile Char.isDigit ∧
      ∃ fraction, Fraction fraction digits ∧ cs = whole ++ (fraction ++ rest) := by
  have hsplit : cs.takeWhile Char.isDigit ++ cs.dropWhile Char.isDigit = cs :=
    List.takeWhile_append_dropWhile
  unfold takeMantissa at h
  split at h
  case h_1 behind hdrop =>
    obtain ⟨rfl, rfl, rfl⟩ : cs.takeWhile Char.isDigit = whole ∧
        behind.takeWhile Char.isDigit = digits ∧ behind.dropWhile Char.isDigit = rest := by
      simpa using h
    refine ⟨rfl, _, .point (List.all_eq_true.mp List.all_takeWhile), ?_⟩
    rw [List.cons_append, List.takeWhile_append_dropWhile, ← hdrop, hsplit]
  case h_2 =>
    obtain ⟨rfl, rfl, rfl⟩ : cs.takeWhile Char.isDigit = whole ∧ [] = digits ∧
        cs.dropWhile Char.isDigit = rest := by
      simpa using h
    exact ⟨rfl, [], .absent, hsplit.symm⟩

/-- Behind a sign or none, what starts with a digit is read as the decimal that it spells. -/
theorem numeral?_eq_some_iff {word body : List Char} {negative : Bool}
    (hsigned : Integer.Signed word negative body) (hdigit : body.head?.any Char.isDigit)
    {d : Digits} : numeral? word = some d ↔ Numeral body d := by
  simp only [numeral?, hsigned.takeSign_eq]
  constructor
  · intro h
    rcases hparts : takeMantissa body with ⟨whole, digits, rest⟩
    simp only [hparts] at h
    obtain ⟨n, hn, hmap⟩ := Option.bind_eq_some_iff.mp h
    obtain ⟨power, hpower, rfl⟩ := Option.map_eq_some_iff.mp hmap
    obtain ⟨-, hdigits, rfl⟩ := Integer.natural?_eq_some_iff.mp hn
    obtain ⟨hwhole, fraction, hfraction, hbody⟩ := exists_fraction_of_takeMantissa hparts
    have hne : whole ≠ [] := by
      rw [hwhole]
      cases body with
      | nil => cases hdigit
      | cons c cs =>
        have hc : c.isDigit := by simpa using hdigit
        simp [hc]
    rw [hbody]
    exact .parts hne (List.forall_mem_append.mp hdigits).1 hfraction
      (readExponent_eq_some_iff.mp hpower)
  · intro h
    cases h with
    | @parts whole fraction exponent digits power hne hwhole hfraction hexponent =>
      have hdigits : ∀ c ∈ whole ++ digits, c.isDigit :=
        List.forall_mem_append.mpr ⟨hwhole, hfraction.isDigit⟩
      have hne' : whole ++ digits ≠ [] := by simp [hne]
      simp only [takeMantissa_parts hwhole hfraction hexponent,
        Integer.natural?_of_isDigit hne' hdigits, readExponent_eq_some_iff.mpr hexponent,
        Option.bind_some, Option.map_some]

end Double

end RadarQuery
