import RadarQuery.Proofs.Text.Spelling
import RadarQuery.Proofs.Token.Progress

/-!
Runs of the lexer. A run is a list of tokens that successive calls give without
an error, between the lexer before the first call and the one after the last.
What a call gives is settled by the characters of the token and the class of the
character behind it, and an atom that is not a text is what a word between two
delimiters is classified as. Every symbol that a call gives is one that can be read.
-/

namespace RadarQuery.Lexer

/-- Successive calls give the tokens in order and leave the second lexer. -/
inductive Reads : Lexer → List Token → Lexer → Prop
  | nil (l : Lexer) : Reads l [] l
  | cons {l m n : Lexer} {t : Token} {ts : List Token} :
      l.next = (.ok (some t), m) → Reads m ts n → Reads l (t :: ts) n

namespace Reads

theorem single {l m : Lexer} {t : Token} (h : l.next = (.ok (some t), m)) : Reads l [t] m :=
  cons h (nil m)

theorem append {l m n : Lexer} {as bs : List Token} (ha : Reads l as m) (hb : Reads m bs n) :
    Reads l (as ++ bs) n := by
  induction ha with
  | nil => exact hb
  | cons hnext _ ih => exact cons hnext (ih hb)

/-- A run may be cut between any two tokens. -/
theorem split {l n : Lexer} {as bs : List Token} (h : Reads l (as ++ bs) n) :
    ∃ m, Reads l as m ∧ Reads m bs n := by
  induction as generalizing l with
  | nil => exact ⟨l, nil l, h⟩
  | cons a as ih =>
    cases h with
    | cons hnext hrest =>
      obtain ⟨m, ha, hb⟩ := ih hrest
      exact ⟨m, cons hnext ha, hb⟩

/-- A run uses up a beginning of what is left. -/
theorem precedes {l m : Lexer} {ts : List Token} (h : Reads l ts m) : l.Precedes m := by
  induction h with
  | nil l => exact Precedes.refl l
  | @cons l m _ _ _ hnext _ ih =>
    have hfirst := precedes_next l
    rw [hnext] at hfirst
    exact hfirst.trans ih

/-- Every token of a run is given by a call inside the input. -/
theorem exists_next {l m : Lexer} {ts : List Token} (h : Reads l ts m) {t : Token} (ht : t ∈ ts) :
    ∃ k n, l.Precedes k ∧ k.next = (.ok (some t), n) := by
  obtain ⟨as, bs, rfl⟩ := List.append_of_mem ht
  obtain ⟨k, has, hbs⟩ := h.split
  cases hbs with
  | cons hnext _ => exact ⟨k, _, has.precedes, hnext⟩

end Reads

section Next

variable (position : ℕ) (rest : List Char)

/-- Blanks in front of a token only move the position. -/
theorem next_blanks {blanks : List Char} (h : ∀ c ∈ blanks, Text.isBlank c) :
    next ⟨position, blanks ++ rest⟩ = next ⟨position + blanks.length, rest⟩ := by
  simp only [next, List.takeWhile_append_of_pos h, List.dropWhile_append_of_pos h,
    List.length_append, Nat.add_assoc]

theorem next_opening :
    next ⟨position, '(' :: rest⟩ = (.ok (some .opening), ⟨position + 1, rest⟩) := by
  rfl

theorem next_closing :
    next ⟨position, ')' :: rest⟩ = (.ok (some .closing), ⟨position + 1, rest⟩) := by
  rfl

/-- A quoted text is read as that text, whatever stands behind its closing quote. -/
theorem next_encode (text : List Char) :
    next ⟨position, Text.Quoted.encode text ++ rest⟩ =
      (.ok (some (.atom (.text (String.ofList text)))),
        ⟨position + (Text.Quoted.encode text).length, rest⟩) := by
  have hquoted : Text.Quoted.encode text ++ rest =
      '"' :: (text.flatMap Text.Quoted.escape ++ '"' :: rest) := by
    simp [Text.Quoted.encode]
  have hstart : next ⟨position, Text.Quoted.encode text ++ rest⟩ =
      readText position (text.flatMap Text.Quoted.escape ++ '"' :: rest) := by
    rw [hquoted]
    rfl
  have hlength : (Text.Quoted.encode text).length =
      1 + ((text.flatMap Text.Quoted.escape).length + 1) := by
    simp [Text.Quoted.encode]
    omega
  simp only [hstart, readText, Text.Quoted.read_flatMap_escape, hlength, Nat.add_assoc]

theorem next_eq_readWord {c : Char} (hc : isDelimiter c = false) (cs : List Char) :
    next ⟨position, c :: cs⟩ = readWord position (c :: cs) := by
  simp only [isDelimiter, Bool.or_eq_false_iff, beq_eq_false_iff_ne, ne_eq] at hc
  obtain ⟨⟨⟨hblank, hopening⟩, hclosing⟩, hquote⟩ := hc
  simp [next, hblank, hopening, hclosing, hquote]

def resultOf (word : List Char) (start : ℕ) : Option Atom → Except LexError (Option Token)
  | some a => .ok (some (.atom a))
  | none => .error (.invalidNumber (String.ofList word) start)

/-- A word up to a delimiter, or to the end, is used up and read as what it is classified as. -/
theorem next_word {word : List Char} (hne : word ≠ [])
    (hword : ∀ c ∈ word, isDelimiter c = false)
    (hrest : rest.head?.any (!isDelimiter ·) = false) :
    next ⟨position, word ++ rest⟩ =
      (resultOf word position (classify word), ⟨position + word.length, rest⟩) := by
  have hrun : ∀ c ∈ word, (!isDelimiter c) = true := by simpa using hword
  obtain ⟨c, cs, rfl⟩ := List.exists_cons_of_ne_nil hne
  rw [List.cons_append, next_eq_readWord position (hword c (List.mem_cons_self ..)),
    ← List.cons_append]
  simp only [readWord, Text.takeWhile_run hrun hrest, Text.dropWhile_run hrun hrest]
  cases classify (c :: cs) <;> rfl

end Next

section Word

theorem head?_dropWhile_any (p : Char → Bool) (cs : List Char) :
    (cs.dropWhile p).head?.any p = false := by
  have hhead := List.head?_dropWhile_not p cs
  cases hcs : (cs.dropWhile p).head? with
  | none => rfl
  | some c => simpa [hcs] using hhead

/-- Between the two lexers stands a word behind blanks, up to a delimiter or the end. -/
structure WordBetween (l m : Lexer) (word : List Char) : Prop where
  rest_eq : ∃ blanks, (∀ c ∈ blanks, Text.isBlank c) ∧ l.rest = blanks ++ (word ++ m.rest)
  ne_nil : word ≠ []
  clear : ∀ c ∈ word, isDelimiter c = false
  ended : m.rest.head?.any (!isDelimiter ·) = false

theorem WordBetween.infix {l m : Lexer} {word : List Char} (h : WordBetween l m word) :
    word <:+: l.rest := by
  obtain ⟨blanks, -, hrest⟩ := h.rest_eq
  exact ⟨blanks, m.rest, by rw [hrest, List.append_assoc]⟩

theorem readText_eq_atom {start : ℕ} {cs : List Char} {a : Atom}
    (h : (readText start cs).1 = .ok (some (.atom a))) : a.kind = .text := by
  unfold readText at h
  split at h
  case h_1 text _ _ _ =>
    obtain rfl : .text (String.ofList text) = a := by simpa using h
    rfl
  all_goals simp at h

theorem exists_word_of_readWord {start : ℕ} {c : Char} {cs : List Char} {a : Atom} {m : Lexer}
    (hc : isDelimiter c = false) (h : readWord start (c :: cs) = (.ok (some (.atom a)), m)) :
    ∃ word, WordBetween ⟨start, c :: cs⟩ m word ∧ classify word = some a := by
  simp only [readWord] at h
  split at h
  case h_2 => simp at h
  case h_1 b hclass =>
    obtain ⟨rfl, rfl⟩ : b = a ∧ _ = m := by simpa using h
    refine ⟨(c :: cs).takeWhile (!isDelimiter ·), ⟨⟨[], by simp, ?_⟩, ?_, ?_, ?_⟩, hclass⟩
    · exact List.takeWhile_append_dropWhile.symm
    · simp [hc]
    · intro d hd
      simpa using List.all_eq_true.mp List.all_takeWhile d hd
    · exact head?_dropWhile_any _ _

/-- Blanks in front of a word do not count. -/
theorem WordBetween.of_blanks {l m : Lexer} {position : ℕ} {blanks rest word : List Char}
    (hblanks : ∀ c ∈ blanks, Text.isBlank c) (hrest : blanks ++ rest = l.rest)
    (h : WordBetween ⟨position, rest⟩ m word) : WordBetween l m word := by
  obtain ⟨blanks', hblanks', hrest'⟩ := h.rest_eq
  refine ⟨⟨blanks ++ blanks', ?_, ?_⟩, h.ne_nil, h.clear, h.ended⟩
  · exact List.forall_mem_append.mpr ⟨hblanks, hblanks'⟩
  · rw [← hrest, List.append_assoc]
    exact congrArg (blanks ++ ·) hrest'

/-- An atom that is not a text is what a word is classified as. -/
theorem exists_word_of_next {l m : Lexer} {a : Atom} (h : l.next = (.ok (some (.atom a)), m))
    (ha : a.kind ≠ .text) : ∃ word, WordBetween l m word ∧ classify word = some a := by
  have hcall := outcome_next l
  generalize l.next = result at hcall h
  cases hcall with
  | ended => simp at h
  | opening => simp at h
  | closing => simp at h
  | text => exact absurd (readText_eq_atom (congrArg Prod.fst h)) ha
  | word hblanks hrest hc =>
    obtain ⟨word, hword, hclass⟩ := exists_word_of_readWord hc h
    exact ⟨word, hword.of_blanks hblanks hrest.symm, hclass⟩

end Word

section Symbol

/-- A word is only ever the symbol of its own name. -/
theorem eq_ofList_of_classify {word : List Char} {name : String}
    (h : classify word = some (.symbol name)) : name = String.ofList word := by
  simp only [classify] at h
  split at h
  · simp at h
  · split at h
    · simp at h
    · split at h
      · simpa using h.symm
      · split at h <;> simp at h

theorem readsAsSymbol_iff {name : String} :
    readsAsSymbol name ↔ name.toList ≠ [] ∧ (∀ c ∈ name.toList, isDelimiter c = false) ∧
      classify name.toList = some (.symbol name) := by
  simp only [readsAsSymbol]
  cases hclass : classify name.toList with
  | none => simp
  | some a =>
    cases a with
    | symbol found =>
      have hname : name = found := by simpa using (eq_ofList_of_classify hclass).symm
      simp [hname]
    | _ => simp

/-- Every symbol that a call gives can be read. -/
theorem readsAsSymbol_of_next {l m : Lexer} {name : String}
    (h : l.next = (.ok (some (.atom (.symbol name))), m)) : readsAsSymbol name := by
  obtain ⟨word, hword, hclass⟩ := exists_word_of_next h (by simp [Atom.kind])
  have hname := eq_ofList_of_classify hclass
  rw [readsAsSymbol_iff, hname, String.toList_ofList]
  exact ⟨hword.ne_nil, hword.clear, hname ▸ hclass⟩

theorem Reads.readsAsSymbol {l m : Lexer} {ts : List Token} (h : Reads l ts m) {name : String}
    (hname : .atom (.symbol name) ∈ ts) : readsAsSymbol name := by
  obtain ⟨k, n, -, hnext⟩ := h.exists_next hname
  exact readsAsSymbol_of_next hnext

end Symbol

end RadarQuery.Lexer
