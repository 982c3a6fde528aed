import Mathlib.Data.Nat.Notation
import RadarQuery.Token.Lexer

/-!
Progress through the input. The first character that is not blank settles what a call
does. It uses up a beginning of what is left and moves the position by its length,
whatever it gives. A lexer therefore always stands inside the input it began with, and
its position counts the characters in front of it.
-/

namespace RadarQuery

namespace Text.Quoted

namespace Reading

def rest : Reading → List Char
  | closed _ _ rest => rest
  | badEscape _ _ rest => rest
  | unclosed _ => []

def used : Reading → ℕ
  | closed _ used _ => used
  | badEscape _ used _ => used
  | unclosed used => used

@[simp] theorem rest_after (c : Char) (width : ℕ) (r : Reading) :
    (r.after c width).rest = r.rest := by
  cases r <;> rfl

theorem size_eq (r : Reading) : r.size = r.used + r.rest.length := by
  cases r <;> rfl

end Reading

theorem rest_read_suffix (cs : List Char) : (read cs).rest <:+ cs := by
  fun_induction read cs with
  | case1 => exact List.suffix_refl []
  | case2 rest => exact List.suffix_cons '"' rest
  | case3 => exact List.nil_suffix
  | case4 letter rest c _ ih =>
    rw [Reading.rest_after]
    exact ih.trans (List.suffix_append ['\\', letter] rest)
  | case5 letter rest _ => exact List.suffix_cons '\\' (letter :: rest)
  | case6 c rest _ _ _ ih =>
    rw [Reading.rest_after]
    exact ih.trans (List.suffix_cons c rest)

end Text.Quoted

namespace Lexer

/-- The second lexer stands in the input of the first, with what lies between them used up. -/
def Precedes (l m : Lexer) : Prop :=
  ∃ used, l.rest = used ++ m.rest ∧ m.position = l.position + used.length

namespace Precedes

theorem refl (l : Lexer) : l.Precedes l :=
  ⟨[], rfl, rfl⟩

theorem trans {l m n : Lexer} (hlm : l.Precedes m) (hmn : m.Precedes n) : l.Precedes n := by
  obtain ⟨used, hrest, hposition⟩ := hlm
  obtain ⟨used', hrest', hposition'⟩ := hmn
  refine ⟨used ++ used', ?_, ?_⟩
  · rw [hrest, hrest', List.append_assoc]
  · rw [hposition', hposition, List.length_append, Nat.add_assoc]

theorem suffix {l m : Lexer} (h : l.Precedes m) : m.rest <:+ l.rest := by
  obtain ⟨used, hrest, -⟩ := h
  exact ⟨used, hrest.symm⟩

end Precedes

theorem precedes_of_rest_eq {l : Lexer} {used rest : List Char} (h : l.rest = used ++ rest) :
    l.Precedes ⟨l.position + used.length, rest⟩ :=
  ⟨used, h, rfl⟩

theorem precedes_cons (position : ℕ) (c : Char) (cs : List Char) :
    Precedes ⟨position, c :: cs⟩ ⟨position + 1, cs⟩ :=
  ⟨[c], rfl, rfl⟩

theorem precedes_dropWhile (p : Char → Bool) (position : ℕ) (cs : List Char) :
    Precedes ⟨position, cs⟩ ⟨position + (cs.takeWhile p).length, cs.dropWhile p⟩ :=
  precedes_of_rest_eq List.takeWhile_append_dropWhile.symm

theorem precedes_readText (start : ℕ) (cs : List Char) :
    Precedes ⟨start + 1, cs⟩ (readText start cs).2 := by
  obtain ⟨taken, htaken⟩ := Text.Quoted.rest_read_suffix cs
  have hsize := Text.Quoted.size_read cs
  have hlength := congrArg List.length htaken
  rw [Text.Quoted.Reading.size_eq] at hsize
  rw [List.length_append] at hlength
  have hused : start + 1 + (Text.Quoted.read cs).used = start + 1 + taken.length := by omega
  refine ⟨taken, ?_, ?_⟩
  · unfold readText
    cases hread : Text.Quoted.read cs <;> simpa [hread, Text.Quoted.Reading.rest] using htaken.symm
  · unfold readText
    cases hread : Text.Quoted.read cs <;> simpa [hread, Text.Quoted.Reading.used] using hused

theorem precedes_readWord (start : ℕ) (cs : List Char) :
    Precedes ⟨start, cs⟩ (readWord start cs).2 := by
  have hword := precedes_dropWhile (!isDelimiter ·) start cs
  simp only [readWord]
  split <;> exact hword

/-- What a call does, by the first character that is not blank. -/
inductive Outcome (l : Lexer) : Except LexError (Option Token) × Lexer → Prop
  | ended : (∀ c ∈ l.rest, Text.isBlank c) →
      Outcome l (.ok none, ⟨l.position + l.rest.length, []⟩)
  | opening {blanks cs : List Char} : (∀ c ∈ blanks, Text.isBlank c) →
      l.rest = blanks ++ '(' :: cs →
      Outcome l (.ok (some .opening), ⟨l.position + blanks.length + 1, cs⟩)
  | closing {blanks cs : List Char} : (∀ c ∈ blanks, Text.isBlank c) →
      l.rest = blanks ++ ')' :: cs →
      Outcome l (.ok (some .closing), ⟨l.position + blanks.length + 1, cs⟩)
  | text {blanks cs : List Char} : (∀ c ∈ blanks, Text.isBlank c) →
      l.rest = blanks ++ '"' :: cs → Outcome l (readText (l.position + blanks.length) cs)
  | word {blanks cs : List Char} {c : Char} : (∀ c ∈ blanks, Text.isBlank c) →
      l.rest = blanks ++ c :: cs → isDelimiter c = false →
      Outcome l (readWord (l.position + blanks.length) (c :: cs))

theorem outcome_next (l : Lexer) : Outcome l l.next := by
  have hsplit : l.rest.takeWhile Text.isBlank ++ l.rest.dropWhile Text.isBlank = l.rest :=
    List.takeWhile_append_dropWhile
  have hblanks : ∀ c ∈ l.rest.takeWhile Text.isBlank, Text.isBlank c :=
    List.all_eq_true.mp List.all_takeWhile
  have hhead := List.head?_dropWhile_not Text.isBlank l.rest
  unfold next
  generalize l.rest.takeWhile Text.isBlank = blanks at hsplit hblanks ⊢
  cases hrest : l.rest.dropWhile Text.isBlank with
  | nil =>
    obtain rfl : blanks = l.rest := by rw [← hsplit, hrest, List.append_nil]
    exact .ended hblanks
  | cons c cs =>
    rw [hrest] at hsplit hhead
    have hblank : Text.isBlank c = false := by simpa using hhead
    by_cases hopening : c = '('
    · subst hopening
      exact .opening hblanks hsplit.symm
    by_cases hclosing : c = ')'
    · subst hclosing
      exact .closing hblanks hsplit.symm
    by_cases hquote : c = '"'
    · subst hquote
      exact .text hblanks hsplit.symm
    have hc : isDelimiter c = false := by simp [isDelimiter, hblank, hopening, hclosing, hquote]
    simp only [hopening, hclosing, hquote, if_false]
    exact .word hblanks hsplit.symm hc

/-- A call uses up a beginning of what is left, also if it gives an error. -/
theorem precedes_next (l : Lexer) : l.Precedes l.next.2 := by
  have hcall := outcome_next l
  generalize l.next = result at hcall ⊢
  cases hcall with
  | ended => exact precedes_of_rest_eq (List.append_nil _).symm
  | opening _ hrest => exact (precedes_of_rest_eq hrest).trans (precedes_cons _ _ _)
  | closing _ hrest => exact (precedes_of_rest_eq hrest).trans (precedes_cons _ _ _)
  | text _ hrest =>
    exact ((precedes_of_rest_eq hrest).trans (precedes_cons _ _ _)).trans (precedes_readText _ _)
  | word _ hrest => exact (precedes_of_rest_eq hrest).trans (precedes_readWord _ _)

end Lexer

end RadarQuery
