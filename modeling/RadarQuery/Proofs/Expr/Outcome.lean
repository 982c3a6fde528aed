import RadarQuery.Proofs.Expr.Rejection
import RadarQuery.Proofs.Token.Calls

/-!
What a call of the parser gives and what it leaves behind. After an expression the parser
stands at the token behind it, with that token read ahead. After an error it holds no
token, or the closing parenthesis behind which a token could not be read. The positions
in errors are those of the lexer, which has passed the token that the error is about.
-/

namespace RadarQuery

open Lexer

namespace Parser

/-- What a call gives, and the parser after it, when the first token is the next of `l`. -/
inductive Outcome (l : Lexer) : Except ParseError Expr × Parser → Prop
  | accepted {e : Expr} {m lexer : Lexer} : Reads l e.tokens m → m.next = (.ok none, lexer) →
      Outcome l (.ok e, ⟨lexer, none⟩)
  | trailingInput {e : Expr} {t : Token} {m lexer : Lexer} : Reads l e.tokens m →
      m.next = (.ok (some t), lexer) →
      Outcome l (.error (.trailingInput lexer.position), ⟨lexer, some t⟩)
  | unbalancedClose {lexer : Lexer} : l.next = (.ok (some .closing), lexer) →
      Outcome l (.error (.unbalancedClose lexer.position), ⟨lexer, none⟩)
  | unexpectedEnd (lexer : Lexer) : Outcome l (.error .unexpectedEnd, ⟨lexer, none⟩)
  | lex (cause : LexError) {q : Parser} : q.lookahead = none ∨ q.lookahead = some .closing →
      Outcome l (.error (.lex cause), q)

section Single

variable {l : Lexer} {p q : Parser} {cause : ParseError}

theorem ofLexer_eq_ok_iff : ofLexer l = .ok p ↔ p.At l := by
  unfold ofLexer At
  split
  case h_1 hnext => simp [hnext]
  case h_2 ahead after hnext =>
    rw [hnext, Except.ok.injEq, Prod.mk.injEq, Except.ok.injEq]
    constructor
    · rintro rfl
      exact ⟨rfl, rfl⟩
    · rintro ⟨rfl, rfl⟩
      rfl

/-- Reading on fails at the end, at a token that cannot be read, or at a closing parenthesis
in front of everything else. -/
theorem readFrom_eq_error {lexer : Lexer} {lookahead : Option Token} {opened : List (List Expr)}
    (h : readFrom lexer lookahead opened = (.error cause, q)) :
    (cause = .unexpectedEnd ∧ q.lookahead = none) ∨
      (∃ reason, cause = .lex reason ∧ (q.lookahead = none ∨ q.lookahead = some .closing)) ∨
      (lookahead = some .closing ∧ opened = [] ∧ cause = .unbalancedClose lexer.position ∧
        q = ⟨lexer, none⟩) := by
  fun_induction readFrom lexer lookahead opened with
  | case1 lexer opened =>
    cases h
    exact Or.inl ⟨rfl, rfl⟩
  | case2 lexer opened token hshift =>
    cases h
    obtain ⟨rfl, rfl⟩ := shift_eq_none_iff.mp hshift
    exact Or.inr (Or.inr ⟨rfl, rfl, rfl, rfl⟩)
  | case3 lexer opened token step hshift reason after hnext =>
    cases h
    refine Or.inr (Or.inl ⟨reason, rfl, ?_⟩)
    by_cases hclosing : token = .closing
    · exact Or.inr (if_pos hclosing)
    · exact Or.inl (if_neg hclosing)
  | case4 => simp at h
  | case5 lexer opened token ahead after hnext opened' hshift ih =>
    rcases ih h with hend | hlex | ⟨-, hnil, -⟩
    · exact Or.inl hend
    · exact Or.inr (Or.inl hlex)
    · exact absurd hnil (ne_nil_of_shift hshift)

theorem outcome_parse (hp : p.At l) : Outcome l p.parse := by
  unfold parse
  split
  case h_1 cause q hread =>
    rcases readFrom_eq_error hread with
      ⟨rfl, hq⟩ | ⟨reason, rfl, hq⟩ | ⟨hclosing, -, rfl, rfl⟩
    · obtain ⟨lexer, lookahead⟩ := q
      obtain rfl : lookahead = none := hq
      exact .unexpectedEnd lexer
    · exact .lex reason hq
    · exact .unbalancedClose (by rw [hp, hclosing])
  case h_2 e q hread =>
    obtain ⟨ts, m, hreads, hm, hspell⟩ := exists_reads_of_readFrom hread hp
    rw [tokensOfOpened, List.nil_append] at hspell
    subst hspell
    obtain ⟨lexer, lookahead⟩ := q
    cases lookahead with
    | none => exact .accepted hreads hm
    | some t => exact .trailingInput hreads hm

/-- Behind a complete expression there is another token. -/
theorem parse_eq_trailingInput {e : Expr} {m : Lexer} {t : Token} (hp : p.At l)
    (h : Reads l e.tokens m) (hq : q.At m) (hahead : q.lookahead = some t) :
    p.parse = (.error (.trailingInput q.lexer.position), q) := by
  simp [parse, completes e h hp hq [], place, resume, hahead]

end Single

end Parser

namespace Lexer

def start (l : Lexer) : ℕ :=
  l.position + (l.rest.takeWhile Text.isBlank).length

theorem next_eq_next_start (l : Lexer) :
    l.next = next ⟨l.start, l.rest.dropWhile Text.isBlank⟩ := by
  have hblanks : ∀ c ∈ l.rest.takeWhile Text.isBlank, Text.isBlank c :=
    List.all_eq_true.mp List.all_takeWhile
  have hskip := next_blanks l.position (l.rest.dropWhile Text.isBlank) hblanks
  rwa [List.takeWhile_append_dropWhile] at hskip

/-- A token takes up at least the character that it starts with. -/
theorem start_lt_of_next {l m : Lexer} {t : Token} (h : l.next = (.ok (some t), m)) :
    l.start < m.position := by
  rw [next_eq_next_start] at h
  have hmove := position_lt_next (l := ⟨l.start, l.rest.dropWhile Text.isBlank⟩) (by simp [h])
  rwa [h] at hmove

/-- The lexer has passed a closing parenthesis when it gives one. -/
theorem exists_of_next_closing {l m : Lexer} (h : l.next = (.ok (some .closing), m)) :
    ∃ blanks, (∀ c ∈ blanks, Text.isBlank c) ∧ l.rest = blanks ++ ')' :: m.rest ∧
      m.position = l.position + blanks.length + 1 := by
  have hcall := outcome_next l
  generalize l.next = result at hcall h
  cases hcall with
  | ended => simp at h
  | opening => simp at h
  | @closing blanks cs hblanks hrest =>
    obtain rfl : _ = m := (Prod.mk.inj h).2
    exact ⟨blanks, hblanks, hrest, rfl⟩
  | text =>
    unfold readText at h
    split at h <;> simp at h
  | word =>
    simp only [readWord] at h
    split at h <;> simp at h

end Lexer

namespace Expr

section Position

variable {text : String} {position : ℕ}

theorem parse_eq_of_at {p : Parser} (hp : p.At (ofText text)) : parse text = p.parse.1 := by
  rw [parse, Parser.ofLexer_eq_ok_iff.mpr hp]
  rfl

/-- The first token of a text cannot be read, or the text is what one call makes of it. -/
theorem exists_outcome (text : String) :
    (∃ cause, parse text = .error (.lex cause)) ∨
      ∃ q, Parser.Outcome (ofText text) (parse text, q) := by
  cases hfirst : Parser.ofLexer (ofText text) with
  | error cause =>
    left
    have hparse : parse text = .error cause := by
      rw [parse, hfirst]
      rfl
    unfold Parser.ofLexer at hfirst
    split at hfirst
    case h_1 reason after _ =>
      cases hfirst
      exact ⟨reason, hparse⟩
    case h_2 => simp at hfirst
  | ok p =>
    right
    have hp := Parser.ofLexer_eq_ok_iff.mp hfirst
    rw [parse_eq_of_at hp]
    exact ⟨_, Parser.outcome_parse hp⟩

/-- A text is refused for a closing parenthesis in front of everything else but blanks. -/
theorem parse_eq_unbalancedClose_at_iff :
    parse text = .error (.unbalancedClose position) ↔
      ∃ blanks rest, text.toList = blanks ++ ')' :: rest ∧ (∀ c ∈ blanks, Text.isBlank c) ∧
        position = blanks.length + 1 := by
  constructor
  · intro h
    rcases exists_outcome text with ⟨cause, hlex⟩ | ⟨q, hcall⟩
    · rw [hlex] at h
      cases h
    · rw [h] at hcall
      cases hcall with
      | @unbalancedClose lexer hnext =>
        obtain ⟨blanks, hblanks, hrest, hposition⟩ := exists_of_next_closing hnext
        refine ⟨blanks, lexer.rest, hrest, hblanks, ?_⟩
        rw [hposition, ofText, Nat.zero_add]
  · rintro ⟨blanks, rest, htext, hblanks, rfl⟩
    have hp : Parser.At ⟨⟨blanks.length + 1, rest⟩, some .closing⟩ (ofText text) := by
      rw [Parser.At, ofText, htext, next_blanks _ _ hblanks, next_closing, Nat.zero_add]
    rw [parse_eq_of_at hp, Parser.parse, Parser.readFrom]
    rfl

/-- A text is refused for a token behind a complete expression. -/
theorem parse_eq_trailingInput_at_iff :
    parse text = .error (.trailingInput position) ↔
      ∃ (e : Expr) (t : Token) (m n : Lexer), Reads (ofText text) e.tokens m ∧
        m.next = (.ok (some t), n) ∧ position = n.position := by
  constructor
  · intro h
    rcases exists_outcome text with ⟨cause, hlex⟩ | ⟨q, hcall⟩
    · rw [hlex] at h
      cases h
    · rw [h] at hcall
      cases hcall with
      | @trailingInput e t m lexer hreads hnext => exact ⟨e, t, m, lexer, hreads, hnext, rfl⟩
  · rintro ⟨e, t, m, n, hreads, hnext, rfl⟩
    have hq : Parser.At ⟨n, some t⟩ m := hnext
    obtain ⟨p, hp⟩ := Parser.exists_at hreads hq
    rw [parse_eq_of_at hp, Parser.parse_eq_trailingInput hp hreads hq rfl]

/-- The position in an error is the one behind the token that the error is about. For a closing
parenthesis that is one more than where it stands, and for a token behind a complete expression
it is where the token ends, which is never where it starts. -/
theorem parse_error_position (text : String) (position : ℕ) :
    (parse text = .error (.unbalancedClose position) ↔
      ∃ blanks rest, text.toList = blanks ++ ')' :: rest ∧ (∀ c ∈ blanks, Text.isBlank c) ∧
        position = blanks.length + 1) ∧
    (parse text = .error (.trailingInput position) ↔
      ∃ (e : Expr) (t : Token) (m n : Lexer), Reads (ofText text) e.tokens m ∧
        m.next = (.ok (some t), n) ∧ m.start < position ∧ position = n.position) := by
  refine ⟨parse_eq_unbalancedClose_at_iff, parse_eq_trailingInput_at_iff.trans ?_⟩
  constructor
  · rintro ⟨e, t, m, n, hreads, hnext, rfl⟩
    exact ⟨e, t, m, n, hreads, hnext, start_lt_of_next hnext, rfl⟩
  · rintro ⟨e, t, m, n, hreads, hnext, -, hposition⟩
    exact ⟨e, t, m, n, hreads, hnext, hposition⟩

/-- The parenthesis stands at position zero, and the second word at position two. -/
theorem parse_error_position_behind :
    parse ")" = .error (.unbalancedClose 1) ∧
    (¬∀ (text : String) (position : ℕ), parse text = .error (.unbalancedClose position) →
      text.toList[position]? = some ')') ∧
    parse "a b" = .error (.trailingInput 3) ∧
    ¬∀ (text : String) (position : ℕ) (e : Expr) (m : Lexer),
      parse text = .error (.trailingInput position) → Reads (ofText text) e.tokens m →
        position = m.start := by
  have hclose : parse ")" = .error (.unbalancedClose 1) :=
    parse_eq_unbalancedClose_at_iff.mpr ⟨[], [], rfl, by simp, rfl⟩
  have hfirst : Reads (ofText "a b") (symbol "a").tokens ⟨1, [' ', 'b']⟩ := Reads.single rfl
  have htrailing : parse "a b" = .error (.trailingInput 3) :=
    parse_eq_trailingInput_at_iff.mpr
      ⟨symbol "a", .atom (.symbol "b"), _, ⟨3, []⟩, hfirst, rfl, rfl⟩
  refine ⟨hclose, ?_, htrailing, ?_⟩
  · intro hall
    have hchar := hall ")" 1 hclose
    simp at hchar
  · intro hall
    have hstart : 3 = start ⟨1, [' ', 'b']⟩ := hall "a b" 3 _ _ htrailing hfirst
    exact absurd hstart (by decide)

end Position

end Expr

end RadarQuery
