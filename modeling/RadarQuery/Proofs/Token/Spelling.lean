import RadarQuery.Expr.Render
import RadarQuery.Proofs.Double.Literal
import RadarQuery.Proofs.Token.Reading

/-!
The text of an atom is one token. Numbers are written so that they start with a
digit, after a sign, and only floats have a point or an exponent letter. Names
that can be read come back as they are. The special values of a double are
written as words, and those words are symbols.
-/

namespace RadarQuery

namespace Lexer

theorem isDelimiter_of_isDigit {c : Char} (hc : c.isDigit) : isDelimiter c = false := by
  have hblank : Text.isBlank c = false := Text.isBlank_of_isDigit hc
  have hopening : c ≠ '(' := Integer.ne_of_isDigit hc rfl
  have hclosing : c ≠ ')' := Integer.ne_of_isDigit hc rfl
  have hquote : c ≠ '"' := Integer.ne_of_isDigit hc rfl
  simp [isDelimiter, hblank, hopening, hclosing, hquote]

/-- With a digit in front, after a sign, a word is a number. -/
theorem classify_number {word : List Char}
    (hdigit : (Integer.takeSign word).2.head?.any Char.isDigit) :
    classify word =
      if (Integer.takeSign word).2.any (fun c => c == '.' || c == 'e' || c == 'E') then
        (Double.read word).map .float
      else (Integer.read word).map .integer := by
  have htrue : word ≠ ['t', 'r', 'u', 'e'] := by
    intro hword
    rw [hword] at hdigit
    cases hdigit
  have hfalse : word ≠ ['f', 'a', 'l', 's', 'e'] := by
    intro hword
    rw [hword] at hdigit
    cases hdigit
  simp only [classify, htrue, hfalse, hdigit, if_false, Bool.true_eq_false]

theorem classify_integer (n : Int64) :
    classify (Integer.chars n.toInt) = some (.integer n) := by
  obtain ⟨c, cs, hcs⟩ := List.exists_cons_of_ne_nil
    (Nat.toDigits_ne_nil (n := n.toInt.natAbs) (b := 10))
  have hdigits : ∀ d ∈ c :: cs, d.isDigit := fun d hd =>
    Integer.isDigit_of_mem_toDigits (hcs ▸ hd)
  have hplain : (c :: cs).any (fun c => c == '.' || c == 'e' || c == 'E') = false := by
    rw [List.any_eq_false]
    intro d hd
    have hdigit := hdigits d hd
    have hpoint : d ≠ '.' := Integer.ne_of_isDigit hdigit rfl
    have hlower : d ≠ 'e' := Integer.ne_of_isDigit hdigit rfl
    have hupper : d ≠ 'E' := Integer.ne_of_isDigit hdigit rfl
    simp [hpoint, hlower, hupper]
  have hdigit : (Integer.takeSign (Integer.chars n.toInt)).2.head?.any Char.isDigit := by
    simpa [Integer.takeSign_chars, hcs] using hdigits c (List.mem_cons_self ..)
  rw [classify_number hdigit]
  simp only [Integer.takeSign_chars, hcs, hplain, Bool.false_eq_true, if_false,
    Integer.read_chars, Option.map_some]

theorem classify_float (negative : Bool) (size : Magnitude) :
    classify (Double.finite negative size).literal = some (.float (.finite negative size)) := by
  have hsign := Double.takeSign_literal negative size
  rw [classify_number (by rw [hsign]; exact Double.head?_literalSize size), hsign]
  simp only [Double.any_literalSize, if_true, Double.read_literal, Option.map_some]

end Lexer

namespace Atom

open Lexer

def isReadable : Atom → Bool
  | symbol name => readsAsSymbol name
  | _ => true

def isFinite : Atom → Bool
  | float x => x.isFinite
  | _ => true

/-- The special values of a double turned into the words that they are written as. -/
def normal : Atom → Atom
  | float .nan => symbol "NaN"
  | float (.infinity false) => symbol "inf"
  | float (.infinity true) => symbol "-inf"
  | a => a

theorem ne_nil_of_takeSign {word : List Char}
    (h : (Integer.takeSign word).2.head?.any Char.isDigit) : word ≠ [] := by
  intro hword
  rw [hword] at h
  cases h

/-- A fixed word is checked character by character. -/
theorem isWord_of_all {word : List Char} {a : Atom}
    (h : word ≠ [] ∧ word.all (!isDelimiter ·) ∧ classify word = some a) :
    word ≠ [] ∧ (∀ c ∈ word, isDelimiter c = false) ∧ classify word = some a := by
  obtain ⟨hne, hall, hclass⟩ := h
  refine ⟨hne, ?_, hclass⟩
  intro c hc
  simpa using List.all_eq_true.mp hall c hc

/-- An atom that is not a text is written as a word. -/
theorem word_chars {a : Atom} (ha : a.isReadable) (htext : a.kind ≠ .text) :
    a.chars ≠ [] ∧ (∀ c ∈ a.chars, isDelimiter c = false) ∧
      classify a.chars = some a.normal := by
  cases a with
  | integer n =>
    refine ⟨?_, fun c hc => ?_, classify_integer n⟩
    · simp only [chars, Integer.chars]
      split
      · simp
      · exact Nat.toDigits_ne_nil
    · rcases Integer.mem_chars hc with rfl | hc
      · decide
      · exact isDelimiter_of_isDigit hc
  | float x =>
    cases x with
    | nan => exact isWord_of_all (by decide)
    | infinity negative => cases negative <;> exact isWord_of_all (by decide)
    | finite negative size =>
      refine ⟨?_, fun c hc => ?_, classify_float negative size⟩
      · apply ne_nil_of_takeSign
        rw [chars, Double.takeSign_literal]
        exact Double.head?_literalSize size
      · rcases Double.mem_literal negative size hc with hc | rfl | rfl | rfl
        · exact isDelimiter_of_isDigit hc
        all_goals decide
  | boolean b => cases b <;> exact isWord_of_all (by decide)
  | text s => exact absurd rfl htext
  | symbol name => exact readsAsSymbol_iff.mp ha

/-- The text of an atom is read as the atom, special values as symbols. Only a word has to end
where the text does. -/
theorem next_chars {a : Atom} (ha : a.isReadable) (position : ℕ) {rest : List Char}
    (hrest : a.kind ≠ .text → rest.head?.any (!isDelimiter ·) = false) :
    Lexer.next ⟨position, a.chars ++ rest⟩ =
      (.ok (some (.atom a.normal)), ⟨position + a.chars.length, rest⟩) := by
  by_cases htext : a.kind = .text
  · cases a with
    | text s => simpa [chars, normal] using next_encode position rest s.toList
    | _ => cases htext
  · obtain ⟨hne, hword, hclass⟩ := word_chars ha htext
    rw [next_word position rest hne hword (hrest htext), hclass]
    rfl

end Atom

end RadarQuery
