import Mathlib.Data.Bool.AllAny
import RadarQuery.Proofs.Token.Numeral
import RadarQuery.Proofs.Token.Spelling

/-!
What a word is. A call at a word uses it up and no more, and the characters of the word
settle what it gives. The two names of truth values apart, a word whose body behind a sign
does not start with a digit is the symbol of that name. Any other word is a number or an
error: with a point or an exponent letter in it a float if it has the form of a numeral, and
without one an integer if it is made of digits and fits into 64 bits.
-/

namespace RadarQuery.Lexer

open Integer (Signed withSign)

def IsMark (c : Char) : Prop :=
  c = '.' ∨ c = 'e' ∨ c = 'E'

instance : DecidablePred IsMark := fun _ => inferInstanceAs (Decidable (_ ∨ _))

section Result

variable {word : List Char} {start : ℕ} {found : Option Atom}

theorem resultOf_eq_atom_iff {a : Atom} :
    resultOf word start found = .ok (some (.atom a)) ↔ found = some a := by
  cases found <;> simp [resultOf]

theorem resultOf_eq_invalidNumber_iff :
    resultOf word start found = .error (.invalidNumber (String.ofList word) start) ↔
      found = none := by
  cases found <;> simp [resultOf]

end Result

section Classes

variable {word body : List Char} {negative : Bool}

theorem classify_symbol (htrue : word ≠ "true".toList) (hfalse : word ≠ "false".toList)
    (hsigned : Signed word negative body) (hdigit : body.head?.any Char.isDigit = false) :
    classify word = some (.symbol (String.ofList word)) := by
  have htrue' : word ≠ ['t', 'r', 'u', 'e'] := htrue
  have hfalse' : word ≠ ['f', 'a', 'l', 's', 'e'] := hfalse
  simp only [classify, htrue', hfalse', hsigned.takeSign_eq, hdigit, if_false, if_true]

theorem classify_without_mark (hsigned : Signed word negative body)
    (hdigit : body.head?.any Char.isDigit) (hmark : ∀ c ∈ body, ¬IsMark c) :
    classify word = (Integer.read word).map .integer := by
  have hplain : body.any (fun c => c == '.' || c == 'e' || c == 'E') = false := by
    simpa [IsMark, and_assoc] using hmark
  rw [classify_number (by rwa [hsigned.takeSign_eq]), hsigned.takeSign_eq,
    if_neg (by simp [hplain])]

theorem classify_with_mark (hsigned : Signed word negative body)
    (hdigit : body.head?.any Char.isDigit) (hmark : ∃ c ∈ body, IsMark c) :
    classify word = (Double.numeral? word).map fun d =>
      .float (.ofDecimal negative d.digits d.power) := by
  have hmarked : body.any (fun c => c == '.' || c == 'e' || c == 'E') = true := by
    simpa [IsMark, or_assoc] using hmark
  have hdigit' : (Integer.takeSign word).2.head?.any Char.isDigit := by
    rwa [hsigned.takeSign_eq]
  rw [classify_number hdigit', Double.read_eq_map_numeral? hdigit', hsigned.takeSign_eq,
    if_pos hmarked, Option.map_map]
  rfl

theorem ne_nil_of_head? (hdigit : body.head?.any Char.isDigit) : body ≠ [] := by
  rintro rfl
  cases hdigit

theorem classify_eq_integer_iff (hsigned : Signed word negative body)
    (hdigit : body.head?.any Char.isDigit) (hmark : ∀ c ∈ body, ¬IsMark c) {n : Int64} :
    classify word = some (.integer n) ↔ (∀ c ∈ body, c.isDigit) ∧
      n.toInt = withSign negative (Nat.ofDigitChars 10 body 0) := by
  simp [classify_without_mark hsigned hdigit hmark, hsigned.read_eq_some_iff,
    ne_nil_of_head? hdigit]

theorem classify_eq_none_iff_of_integer (hsigned : Signed word negative body)
    (hdigit : body.head?.any Char.isDigit) (hmark : ∀ c ∈ body, ¬IsMark c) :
    classify word = none ↔ ¬((∀ c ∈ body, c.isDigit) ∧
      -2 ^ 63 ≤ withSign negative (Nat.ofDigitChars 10 body 0) ∧
      withSign negative (Nat.ofDigitChars 10 body 0) < 2 ^ 63) := by
  have hread : (∃ n, Integer.read word = some n) ↔ (∀ c ∈ body, c.isDigit) ∧
      ∃ n : Int64, n.toInt = withSign negative (Nat.ofDigitChars 10 body 0) := by
    simp [hsigned.read_eq_some_iff, ne_nil_of_head? hdigit]
  rw [classify_without_mark hsigned hdigit hmark, Option.map_eq_none_iff,
    Option.eq_none_iff_forall_ne_some, ← not_exists, hread, Integer.exists_toInt_eq_iff]

theorem classify_eq_float_iff (hsigned : Signed word negative body)
    (hdigit : body.head?.any Char.isDigit) (hmark : ∃ c ∈ body, IsMark c) {x : Double} :
    classify word = some (.float x) ↔
      ∃ d, Double.Numeral body d ∧ x = .ofDecimal negative d.digits d.power := by
  simp [classify_with_mark hsigned hdigit hmark, Double.numeral?_eq_some_iff hsigned hdigit,
    eq_comm]

theorem classify_eq_none_iff_of_float (hsigned : Signed word negative body)
    (hdigit : body.head?.any Char.isDigit) (hmark : ∃ c ∈ body, IsMark c) :
    classify word = none ↔ ¬∃ d, Double.Numeral body d := by
  simp [classify_with_mark hsigned hdigit hmark, Option.eq_none_iff_forall_ne_some,
    Double.numeral?_eq_some_iff hsigned hdigit]

theorem classify_ne_symbol (hsigned : Signed word negative body)
    (hdigit : body.head?.any Char.isDigit) (name : String) :
    classify word ≠ some (.symbol name) := by
  by_cases hmark : ∃ c ∈ body, IsMark c
  · simp [classify_with_mark hsigned hdigit hmark]
  · rw [classify_without_mark hsigned hdigit (by simpa using hmark)]
    simp

/-- A float is always read as the decimal that a numeral spells. -/
theorem eq_ofDecimal_of_classify {x : Double} (h : classify word = some (.float x)) :
    ∃ d, Double.numeral? word = some d ∧
      x = .ofDecimal (Integer.takeSign word).1 d.digits d.power := by
  have hsigned := Integer.signed_takeSign word
  by_cases hdigit : (Integer.takeSign word).2.head?.any Char.isDigit
  · by_cases hmark : ∃ c ∈ (Integer.takeSign word).2, IsMark c
    · rw [classify_with_mark hsigned hdigit hmark] at h
      obtain ⟨d, hd, heq⟩ := Option.map_eq_some_iff.mp h
      exact ⟨d, hd, (Atom.float.inj heq).symm⟩
    · simp [classify_without_mark hsigned hdigit (by simpa using hmark)] at h
  · by_cases htrue : word = "true".toList
    · rw [htrue] at h
      cases h
    by_cases hfalse : word = "false".toList
    · rw [hfalse] at h
      cases h
    rw [classify_symbol htrue hfalse hsigned (by simpa using hdigit)] at h
    cases h

theorem classify_ne_nan (word : List Char) : classify word ≠ some (.float .nan) := by
  intro h
  obtain ⟨d, -, heq⟩ := eq_ofDecimal_of_classify h
  exact Double.ofDecimal_ne_nan _ _ _ heq.symm

end Classes

/-- What a call may give for a word, by its body behind a sign or none. -/
structure WordOutcome (word : List Char) (negative : Bool) (body : List Char) (start : ℕ)
    (result : Except LexError (Option Token)) : Prop where
  boolean_true : word = "true".toList → result = .ok (some (.atom (.boolean true)))
  boolean_false : word = "false".toList → result = .ok (some (.atom (.boolean false)))
  symbol : word ≠ "true".toList → word ≠ "false".toList → body.head?.any Char.isDigit = false →
    result = .ok (some (.atom (.symbol (String.ofList word))))
  ne_symbol : body.head?.any Char.isDigit →
    ∀ name, result ≠ .ok (some (.atom (.symbol name)))
  integer_iff : body.head?.any Char.isDigit → (∀ c ∈ body, ¬IsMark c) → ∀ n,
    result = .ok (some (.atom (.integer n))) ↔ (∀ c ∈ body, c.isDigit) ∧
      n.toInt = withSign negative (Nat.ofDigitChars 10 body 0)
  not_integer_iff : body.head?.any Char.isDigit → (∀ c ∈ body, ¬IsMark c) →
    (result = .error (.invalidNumber (String.ofList word) start) ↔
      ¬((∀ c ∈ body, c.isDigit) ∧ -2 ^ 63 ≤ withSign negative (Nat.ofDigitChars 10 body 0) ∧
        withSign negative (Nat.ofDigitChars 10 body 0) < 2 ^ 63))
  float_iff : body.head?.any Char.isDigit → (∃ c ∈ body, IsMark c) → ∀ x,
    result = .ok (some (.atom (.float x))) ↔
      ∃ d, Double.Numeral body d ∧ x = .ofDecimal negative d.digits d.power
  not_float_iff : body.head?.any Char.isDigit → (∃ c ∈ body, IsMark c) →
    (result = .error (.invalidNumber (String.ofList word) start) ↔ ¬∃ d, Double.Numeral body d)
  ne_nan : result ≠ .ok (some (.atom (.float .nan)))

theorem wordOutcome {word body : List Char} {negative : Bool}
    (hsigned : Signed word negative body) (start : ℕ) :
    WordOutcome word negative body start (resultOf word start (classify word)) where
  boolean_true h := by rw [h]; rfl
  boolean_false h := by rw [h]; rfl
  symbol htrue hfalse hdigit := by rw [classify_symbol htrue hfalse hsigned hdigit]; rfl
  ne_symbol hdigit name := by
    rw [ne_eq, resultOf_eq_atom_iff]
    exact classify_ne_symbol hsigned hdigit name
  integer_iff hdigit hmark n := by
    rw [resultOf_eq_atom_iff, classify_eq_integer_iff hsigned hdigit hmark]
  not_integer_iff hdigit hmark := by
    rw [resultOf_eq_invalidNumber_iff, classify_eq_none_iff_of_integer hsigned hdigit hmark]
  float_iff hdigit hmark x := by
    rw [resultOf_eq_atom_iff, classify_eq_float_iff hsigned hdigit hmark]
  not_float_iff hdigit hmark := by
    rw [resultOf_eq_invalidNumber_iff, classify_eq_none_iff_of_float hsigned hdigit hmark]
  ne_nan := by
    rw [ne_eq, resultOf_eq_atom_iff]
    exact classify_ne_nan word

/-- A call at a word up to a delimiter, or to the end, uses the word up and no more. Behind one
sign or none the word has a body, and the body settles what the call gives. -/
theorem next_at_word (position : ℕ) (word rest : List Char) (hne : word ≠ [])
    (hclear : ∀ c ∈ word, isDelimiter c = false) (hrest : ∀ c ∈ rest.head?, isDelimiter c) :
    (next ⟨position, word ++ rest⟩).2 = ⟨position + word.length, rest⟩ ∧
      ∃ negative body, Signed word negative body ∧
        WordOutcome word negative body position (next ⟨position, word ++ rest⟩).1 := by
  have hended : rest.head?.any (!isDelimiter ·) = false := by
    cases rest <;> simp_all
  have hsigned := Integer.signed_takeSign word
  rw [next_word position rest hne hclear hended]
  exact ⟨rfl, _, _, hsigned, wordOutcome hsigned position⟩

/-- The least integer, the number below it, and a float with nothing behind its point. -/
theorem next_at_word_limits :
    next ⟨3, "-09223372036854775808".toList ++ ['(']⟩ =
      (.ok (some (.atom (.integer Int64.minValue))), ⟨24, ['(']⟩) ∧
    next ⟨3, "-9223372036854775809".toList ++ []⟩ =
      (.error (.invalidNumber "-9223372036854775809" 3), ⟨23, []⟩) ∧
    next ⟨0, "+7.E-1".toList ++ ['\u00a0']⟩ =
      (.ok (some (.atom (.float (.ofDecimal false 7 (-1))))), ⟨6, ['\u00a0']⟩) := by
  refine ⟨?_, ?_, ?_⟩
  · obtain ⟨hafter, negative, body, hsigned, hword⟩ :=
      next_at_word 3 "-09223372036854775808".toList ['('] (by decide)
        (List.all_iff_forall_prop.mp (by decide)) (by simp [isDelimiter])
    cases hsigned.takeSign_eq
    have hinteger := (hword.integer_iff rfl (List.all_iff_forall_prop.mp (by decide))
      Int64.minValue).mpr ⟨List.all_iff_forall_prop.mp (by decide), by decide +kernel⟩
    exact Prod.ext hinteger hafter
  · obtain ⟨hafter, negative, body, hsigned, hword⟩ :=
      next_at_word 3 "-9223372036854775809".toList [] (by decide)
        (List.all_iff_forall_prop.mp (by decide)) (by simp)
    cases hsigned.takeSign_eq
    have herror := (hword.not_integer_iff rfl (List.all_iff_forall_prop.mp (by decide))).mpr
      fun h => absurd h.2.1 (by decide +kernel)
    exact Prod.ext herror hafter
  · obtain ⟨hafter, negative, body, hsigned, hword⟩ :=
      next_at_word 0 "+7.E-1".toList ['\u00a0'] (by decide)
        (List.all_iff_forall_prop.mp (by decide)) (by simp; decide)
    cases hsigned.takeSign_eq
    have hexponent : Double.Exponent ['E', '-', '1'] (-1) :=
      .letter (Or.inr rfl) (.minus ['1']) (by decide) (List.forall_mem_singleton.mpr rfl)
    have hnumeral : Double.Numeral "7.E-1".toList ⟨7, -1⟩ :=
      @Double.Numeral.parts ['7'] ['.'] _ [] _ (by decide) (List.forall_mem_singleton.mpr rfl)
        (.point (List.forall_mem_nil _)) hexponent
    have hfloat := (hword.float_iff rfl ⟨'.', by decide, Or.inl rfl⟩ (.ofDecimal false 7 (-1))).mpr
      ⟨_, hnumeral, rfl⟩
    exact Prod.ext hfloat hafter

end RadarQuery.Lexer
