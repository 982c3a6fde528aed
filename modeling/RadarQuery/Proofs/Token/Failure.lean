import RadarQuery.Proofs.Text.Quoted
import RadarQuery.Proofs.Token.Calls
import RadarQuery.Proofs.Token.Reading

/-!
Why a call gives an error, and where. Behind a quote the input goes on as a spelling of a
text; the call gives that text if a quote closes it, and otherwise an error that points at
the letter of the first bad escape or at the opening quote. The only other error is a word
that is no number, and it points at the beginning of the word.
-/

namespace RadarQuery.Lexer

open Text.Quoted

def within (text : String) (position : ℕ) : Lexer :=
  ⟨position, text.toList.drop position⟩

/-- From the position of a lexer on, the first character of the text that is not blank. -/
structure FirstAt (text : String) (l : Lexer) (start : ℕ) (c : Char) : Prop where
  position_le : l.position ≤ start
  char_eq : text.toList[start]? = some c
  not_blank : Text.isBlank c = false
  blank : ∀ i < start, l.position ≤ i → text.toList[i]?.all Text.isBlank

instance (text : String) (l : Lexer) (start : ℕ) (c : Char) : Decidable (FirstAt text l start c) :=
  decidable_of_iff (l.position ≤ start ∧ text.toList[start]? = some c ∧ Text.isBlank c = false ∧
      ∀ i < start, l.position ≤ i → text.toList[i]?.all Text.isBlank)
    ⟨fun ⟨hle, hchar, hblank, hblanks⟩ => ⟨hle, hchar, hblank, hblanks⟩,
      fun ⟨hle, hchar, hblank, hblanks⟩ => ⟨hle, hchar, hblank, hblanks⟩⟩

section Quoted

variable {start position : ℕ} {cs : List Char} {v : String} {letter : Char} {m : Lexer}

theorem readText_eq_text_iff :
    readText start cs = (.ok (some (.atom (.text v))), m) ↔
      ∃ spelling, Spells v.toList spelling ∧ spelling ++ ['"'] <+: cs ∧
        m = ⟨start + spelling.length + 2, cs.drop (spelling.length + 1)⟩ := by
  have hposition : ∀ n, start + 1 + (n + 1) = start + n + 2 := fun n => by omega
  constructor
  · intro h
    have hscans := scans_read cs
    unfold readText at h
    generalize Text.Quoted.read cs = r at hscans h
    cases hscans with
    | @closed text spelling rest hspells =>
      simp only [Prod.mk.injEq, Except.ok.injEq, Option.some.injEq, Token.atom.injEq,
        Atom.text.injEq] at h
      obtain ⟨rfl, rfl⟩ := h
      refine ⟨spelling, by rwa [String.toList_ofList], ⟨rest, by simp⟩, ?_⟩
      simp [hposition]
    | badEscape => simp at h
    | unclosed => simp at h
    | cut => simp at h
  · rintro ⟨spelling, hspells, ⟨rest, rfl⟩, rfl⟩
    rw [List.append_assoc, List.singleton_append, readText, (Scans.closed rest hspells).eq]
    simp [hposition]

theorem readText_eq_invalidEscape_iff :
    (readText start cs).1 = .error (.invalidEscape letter position) ↔
      ∃ text spelling, Spells text spelling ∧ spelling ++ ['\\', letter] <+: cs ∧
        (∀ c, (letter, c) ∉ escapes) ∧ position = start + spelling.length + 2 := by
  constructor
  · intro h
    have hscans := scans_read cs
    unfold readText at h
    generalize Text.Quoted.read cs = r at hscans h
    cases hscans with
    | closed => simp at h
    | @badEscape text spelling letter rest hspells hbad =>
      simp only [Except.error.injEq, LexError.invalidEscape.injEq] at h
      obtain ⟨rfl, rfl⟩ := h
      exact ⟨text, spelling, hspells, ⟨rest, by simp⟩, hbad, by omega⟩
    | unclosed => simp at h
    | cut => simp at h
  · rintro ⟨text, spelling, hspells, ⟨rest, rfl⟩, hbad, rfl⟩
    rw [List.append_assoc, List.cons_append, List.singleton_append, readText,
      (Scans.badEscape rest hspells hbad).eq]
    simp only [Except.error.injEq, LexError.invalidEscape.injEq, true_and]
    omega

theorem readText_eq_unterminatedText_iff :
    (readText start cs).1 = .error (.unterminatedText position) ↔
      position = start ∧ ∃ text spelling, Spells text spelling ∧
        (cs = spelling ∨ cs = spelling ++ ['\\']) := by
  constructor
  · intro h
    have hscans := scans_read cs
    unfold readText at h
    generalize Text.Quoted.read cs = r at hscans h
    cases hscans with
    | closed => simp at h
    | badEscape => simp at h
    | @unclosed text _ hspells =>
      simp only [Except.error.injEq, LexError.unterminatedText.injEq] at h
      exact ⟨h.symm, text, cs, hspells, Or.inl rfl⟩
    | @cut text spelling hspells =>
      simp only [Except.error.injEq, LexError.unterminatedText.injEq] at h
      exact ⟨h.symm, text, spelling, hspells, Or.inr rfl⟩
  · rintro ⟨rfl, text, spelling, hspells, rfl | rfl⟩
    · rw [readText, (Scans.unclosed hspells).eq]
    · rw [readText, (Scans.cut hspells).eq]

/-- Behind a quote nothing but a text or one of the two errors of texts is found. -/
theorem readText_cases (start : ℕ) (cs : List Char) :
    (∃ v m, readText start cs = (.ok (some (.atom (.text v))), m)) ∨
      (∃ letter position, (readText start cs).1 = .error (.invalidEscape letter position)) ∨
      (readText start cs).1 = .error (.unterminatedText start) := by
  unfold readText
  cases Text.Quoted.read cs with
  | closed text used rest => exact Or.inl ⟨_, _, rfl⟩
  | badEscape letter used rest => exact Or.inr (Or.inl ⟨letter, _, rfl⟩)
  | unclosed used => exact Or.inr (Or.inr rfl)

end Quoted

section Start

variable {text : String} {l : Lexer} {start : ℕ} {c : Char}

/-- Only blanks stand between the lexer and that character. -/
theorem FirstAt.blank_of_mem (h : FirstAt text l start c) {d : Char}
    (hd : d ∈ (text.toList.drop l.position).take (start - l.position)) : Text.isBlank d := by
  obtain ⟨i, hi⟩ := List.mem_iff_getElem?.mp hd
  rw [List.getElem?_take] at hi
  split at hi
  case isTrue hlt =>
    rw [List.getElem?_drop] at hi
    have hblank := h.blank (l.position + i) (by omega) (Nat.le_add_right _ _)
    rwa [hi] at hblank
  case isFalse => cases hi

/-- A call goes on as if the lexer stood at the first character that is not blank. -/
theorem FirstAt.next_eq (h : FirstAt text l start c) (hl : (ofText text).Precedes l) :
    l.next = next (within text start) := by
  have hle := h.position_le
  have hsplit : l.rest = (text.toList.drop l.position).take (start - l.position) ++
      text.toList.drop start := by
    have htake := List.take_append_drop (start - l.position) (text.toList.drop l.position)
    rw [List.drop_drop, Nat.add_sub_cancel' hle] at htake
    rw [hl.rest_eq_drop, htake]
  have hlength : ((text.toList.drop l.position).take (start - l.position)).length =
      start - l.position := by
    have hstart : start < text.toList.length := (List.getElem?_eq_some_iff.mp h.char_eq).1
    rw [List.length_take, List.length_drop]
    omega
  have hskip := next_blanks l.position (text.toList.drop start) fun _ => h.blank_of_mem
  rwa [← hsplit, hlength, Nat.add_sub_cancel' hle] at hskip

theorem FirstAt.drop_eq (h : FirstAt text l start c) :
    text.toList.drop start = c :: text.toList.drop (start + 1) := by
  obtain ⟨hstart, hget⟩ := List.getElem?_eq_some_iff.mp h.char_eq
  rw [List.drop_eq_getElem_cons hstart, hget]

theorem FirstAt.next_eq_readText (h : FirstAt text l start '"') (hl : (ofText text).Precedes l) :
    l.next = readText start (text.toList.drop (start + 1)) := by
  rw [h.next_eq hl, within, h.drop_eq]
  rfl

end Start

/-- What a call may give at a quote: a text exactly if a complete literal begins there, and the
lexer then stands behind its closing quote, or otherwise one of two errors. One is about the
first backslash that no escape letter follows and points at the letter behind it; the other
points at the quote, if the input ends before any of this. -/
structure QuotedOutcome (text : String) (start : ℕ)
    (result : Except LexError (Option Token) × Lexer) : Prop where
  text_iff : ∀ v m, result = (.ok (some (.atom (.text v))), m) ↔
    ∃ spelling, Spells v.toList spelling ∧
      '"' :: (spelling ++ ['"']) <+: text.toList.drop start ∧
      m = within text (start + spelling.length + 2)
  invalidEscape_iff : ∀ letter position, result.1 = .error (.invalidEscape letter position) ↔
    ∃ v spelling, Spells v spelling ∧
      '"' :: (spelling ++ ['\\', letter]) <+: text.toList.drop start ∧
      (∀ d, (letter, d) ∉ escapes) ∧ position = start + spelling.length + 2
  letter_eq : ∀ letter position, result.1 = .error (.invalidEscape letter position) →
    text.toList[position]? = some letter ∧ text.toList[position - 1]? = some '\\'
  unterminatedText_iff : ∀ position, result.1 = .error (.unterminatedText position) ↔
    position = start ∧ ∃ v spelling, Spells v spelling ∧
      (text.toList.drop start = '"' :: spelling ∨
        text.toList.drop start = '"' :: (spelling ++ ['\\']))
  cases : (∃ v m, result = (.ok (some (.atom (.text v))), m)) ∨
    (∃ letter position, result.1 = .error (.invalidEscape letter position)) ∨
    result.1 = .error (.unterminatedText start)

theorem FirstAt.quotedOutcome {text : String} {l : Lexer} {start : ℕ}
    (h : FirstAt text l start '"') (hl : (ofText text).Precedes l) :
    QuotedOutcome text start l.next := by
  have hdrop := h.drop_eq
  rw [h.next_eq_readText hl]
  constructor
  case text_iff =>
    have hposition : ∀ n, start + 1 + (n + 1) = start + n + 2 := fun n => by omega
    intro v m
    simp only [readText_eq_text_iff, hdrop, List.cons_prefix_cons, true_and, within,
      List.drop_drop, hposition]
  case invalidEscape_iff =>
    intro letter position
    simp only [readText_eq_invalidEscape_iff, hdrop, List.cons_prefix_cons, true_and]
  case letter_eq =>
    intro letter position herror
    obtain ⟨v, spelling, -, ⟨rest, hrest⟩, -, rfl⟩ := readText_eq_invalidEscape_iff.mp herror
    have hget : ∀ i, text.toList[start + 1 + i]? = (spelling ++ '\\' :: letter :: rest)[i]? := by
      intro i
      rw [← List.getElem?_drop, ← hrest, List.append_assoc]
      rfl
    have hletter := hget (spelling.length + 1)
    have hslash := hget spelling.length
    rw [List.getElem?_append_right (Nat.le_add_right _ _), Nat.add_sub_cancel_left] at hletter
    rw [List.getElem?_append_right (Nat.le_refl _), Nat.sub_self] at hslash
    have hlast : start + spelling.length + 2 = start + 1 + (spelling.length + 1) := by omega
    have hbefore : start + spelling.length + 2 - 1 = start + 1 + spelling.length := by omega
    rw [hbefore, hlast]
    exact ⟨hletter, hslash⟩
  case unterminatedText_iff =>
    intro position
    simp only [readText_eq_unterminatedText_iff, hdrop, List.cons.injEq, true_and]
  case cases => exact readText_cases _ _

theorem readWord_eq_error {start : ℕ} {cs : List Char} {cause : LexError}
    (h : (readWord start cs).1 = .error cause) :
    cause = .invalidNumber (String.ofList (cs.takeWhile (!isDelimiter ·))) start := by
  simp only [readWord] at h
  split at h
  · cases h
  · exact (Except.error.inj h).symm

/-- Away from quotes the one error is about the word that begins there. -/
theorem FirstAt.eq_invalidNumber {text : String} {l : Lexer} {start : ℕ} {c : Char}
    {cause : LexError} (h : FirstAt text l start c) (hl : (ofText text).Precedes l)
    (hc : c ≠ '"') (hcause : l.next.1 = .error cause) :
    isDelimiter c = false ∧ cause =
      .invalidNumber (String.ofList ((text.toList.drop start).takeWhile (!isDelimiter ·))) start := by
  have hblank := h.not_blank
  rw [h.next_eq hl, within, h.drop_eq] at hcause
  by_cases hopening : c = '('
  · rw [hopening, next_opening] at hcause
    cases hcause
  by_cases hclosing : c = ')'
  · rw [hclosing, next_closing] at hcause
    cases hcause
  have hdelimiter : isDelimiter c = false := by
    simp [isDelimiter, hblank, hopening, hclosing, hc]
  rw [next_eq_readWord start hdelimiter] at hcause
  refine ⟨hdelimiter, ?_⟩
  rw [h.drop_eq]
  exact readWord_eq_error hcause

/-- At a quote a call gives a text or one of the two errors of texts, each exactly where the
input calls for it. At any other character the only error is about a number; it points at that
character and names the longest run without delimiters that begins there. -/
theorem next_of_firstAt (text : String) (n : ℕ) {start : ℕ} {c : Char}
    (h : FirstAt text ((ofText text).afterCalls n) start c) :
    (c = '"' → QuotedOutcome text start ((ofText text).afterCalls n).next) ∧
    (c ≠ '"' → ∀ cause, ((ofText text).afterCalls n).next.1 = .error cause →
      ∃ word, cause = .invalidNumber word start) ∧
    ∀ word position,
      ((ofText text).afterCalls n).next.1 = .error (.invalidNumber word position) →
        position = start ∧ word ≠ "" ∧
          word.toList = (text.toList.drop start).takeWhile (!isDelimiter ·) := by
  have hl := precedes_afterCalls (ofText text) n
  have hquoted : c = '"' → QuotedOutcome text start ((ofText text).afterCalls n).next := by
    rintro rfl
    exact h.quotedOutcome hl
  refine ⟨hquoted, ?_, ?_⟩
  · intro hc cause hcause
    exact ⟨_, (h.eq_invalidNumber hl hc hcause).2⟩
  · intro word position hcause
    by_cases hc : c = '"'
    · rcases (hquoted hc).cases with ⟨v, m, hok⟩ | ⟨letter, found, herror⟩ | herror
      · simp [hok] at hcause
      · simp [herror] at hcause
      · simp [herror] at hcause
    · obtain ⟨hclear, heq⟩ := h.eq_invalidNumber hl hc hcause
      obtain ⟨rfl, rfl⟩ := LexError.invalidNumber.inj heq
      refine ⟨rfl, ?_, String.toList_ofList⟩
      rw [h.drop_eq]
      simp [hclear, ← String.toList_inj]

/-- A closed literal, a word that is no number, a bad escape and, behind the word that is left of
it, a text cut off at a backslash. -/
def mixedText : String := "\"(\\\"\" 1x \"b\\q \"c\\"

theorem next_of_firstAt_mixed :
    ((ofText mixedText).afterCalls 0).next =
      (.ok (some (.atom (.text "(\""))), within mixedText 5) ∧
    ((ofText mixedText).afterCalls 1).next.1 = .error (.invalidNumber "1x" 6) ∧
    "1x".toList = (mixedText.toList.drop 6).takeWhile (!isDelimiter ·) ∧
    ((ofText mixedText).afterCalls 2).next.1 = .error (.invalidEscape 'q' 12) ∧
    ((ofText mixedText).afterCalls 4).next.1 = .error (.unterminatedText 14) := by
  have hliteral := (next_of_firstAt mixedText 0 (show FirstAt _ _ 0 '"' by decide +kernel)).1 rfl
  have hword := (next_of_firstAt mixedText 1 (show FirstAt _ _ 6 '1' by decide +kernel)).2.2
  have hnumber : ((ofText mixedText).afterCalls 1).next.1 = .error (.invalidNumber "1x" 6) := by
    decide +kernel
  have hescape := (next_of_firstAt mixedText 2 (show FirstAt _ _ 9 '"' by decide +kernel)).1 rfl
  have hcut := (next_of_firstAt mixedText 4 (show FirstAt _ _ 14 '"' by decide +kernel)).1 rfl
  have hplain : Spells ['b'] ['b'] := .plain (by decide) (by decide) .nil
  have hplain' : Spells ['c'] ['c'] := .plain (by decide) (by decide) .nil
  have hescaped : Spells ['(', '"'] ['(', '\\', '"'] :=
    .plain (by decide) (by decide) (.escaped (by decide) .nil)
  refine ⟨(hliteral.text_iff _ _).mpr ⟨_, hescaped, by decide +kernel, rfl⟩, hnumber,
    (hword _ _ hnumber).2.2,
    (hescape.invalidEscape_iff _ _).mpr ⟨_, _, hplain, by decide +kernel, ?_, rfl⟩,
    (hcut.unterminatedText_iff _).mpr ⟨rfl, _, _, hplain', Or.inr (by decide +kernel)⟩⟩
  intro d
  simp [escapes]

end RadarQuery.Lexer
