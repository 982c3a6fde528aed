import RadarQuery.Proofs.Expr.Language

/-!
Rejected texts. Which error a text gets depends on its tokens and on what stops them,
the end of the text or something that cannot be read. The tokens begin with a
closing parenthesis, or with a whole expression, or they are the unfinished text of
one, and no two of these go together.
-/

namespace RadarQuery

open Lexer

namespace Parser

/-- How reading on from a lexer fails when these lists are open. The tokens up to the failure
are those of the lists that are open by then, or of a complete expression if the token
behind it cannot be read. A closing parenthesis fails only where no list is open. -/
inductive Fails (l : Lexer) (opened : List (List Expr)) : ParseError → Prop where
  | lex {ts : List Token} {m : Lexer} {step : Step} {cause : LexError} : Reads l ts m →
      tokensOfOpened opened ++ ts = tokensOfStep step → m.next.1 = .error cause →
      Fails l opened (.lex cause)
  | unexpectedEnd {ts : List Token} {m : Lexer} {opened' : List (List Expr)} : Reads l ts m →
      tokensOfOpened opened ++ ts = tokensOfOpened opened' → m.next.1 = .ok none →
      Fails l opened .unexpectedEnd
  | unbalancedClose (position : ℕ) : opened = [] → l.next.1 = .ok (some .closing) →
      Fails l opened (.unbalancedClose position)

/-- After a token that completes nothing there is a list open. -/
theorem ne_nil_of_shift {token : Token} {opened opened' : List (List Expr)}
    (h : shift token opened = some (.more opened')) : opened' ≠ [] := by
  rintro rfl
  have hspell := tokensOfStep_shift h
  simp [tokensOfStep, tokensOfOpened] at hspell

theorem Fails.cons {l lexer : Lexer} {token : Token} {opened opened' : List (List Expr)}
    {cause : ParseError} (hnext : l.next = (.ok (some token), lexer))
    (hshift : shift token opened = some (.more opened')) (h : Fails lexer opened' cause) :
    Fails l opened cause := by
  have hspell : tokensOfOpened opened' = tokensOfOpened opened ++ [token] :=
    tokensOfStep_shift hshift
  cases h with
  | lex hreads hread hstop =>
    rw [hspell, List.append_assoc, List.singleton_append] at hread
    exact Fails.lex (Reads.cons hnext hreads) hread hstop
  | unexpectedEnd hreads hread hstop =>
    rw [hspell, List.append_assoc, List.singleton_append] at hread
    exact Fails.unexpectedEnd (Reads.cons hnext hreads) hread hstop
  | unbalancedClose position hnil _ => exact absurd hnil (ne_nil_of_shift hshift)

theorem fails_of_readFrom {lexer : Lexer} {lookahead : Option Token} {opened : List (List Expr)}
    {cause : ParseError} {q : Parser} (h : readFrom lexer lookahead opened = (.error cause, q))
    {l : Lexer} (hl : l.next = (.ok lookahead, lexer)) : Fails l opened cause := by
  fun_induction readFrom lexer lookahead opened generalizing l with
  | case1 lexer opened =>
    cases h
    exact Fails.unexpectedEnd (Reads.nil l) (List.append_nil _) (by rw [hl])
  | case2 lexer opened token hshift =>
    cases h
    obtain ⟨rfl, hnil⟩ := shift_eq_none_iff.mp hshift
    exact Fails.unbalancedClose lexer.position hnil (by rw [hl])
  | case3 lexer opened token step hshift cause' after hnext =>
    cases h
    exact Fails.lex (Reads.single hl) (tokensOfStep_shift hshift).symm (by rw [hnext])
  | case4 => simp at h
  | case5 lexer opened token ahead after hnext opened' hshift ih =>
    exact Fails.cons hl hshift (ih h hnext)

end Parser

inductive Verdict where
  | accepted (e : Expr)
  | lex (cause : LexError)
  | unbalancedClose
  | unexpectedEnd
  | trailingInput

namespace Verdict

def ofResult : Except ParseError Expr → Verdict
  | .ok e => accepted e
  | .error (.lex cause) => lex cause
  | .error (.unbalancedClose _) => unbalancedClose
  | .error .unexpectedEnd => unexpectedEnd
  | .error (.trailingInput _) => trailingInput

variable {result : Except ParseError Expr}

theorem ofResult_eq_lex_iff {cause : LexError} :
    ofResult result = lex cause ↔ result = .error (.lex cause) := by
  unfold ofResult
  split <;> simp

theorem ofResult_eq_unbalancedClose_iff :
    ofResult result = unbalancedClose ↔
      ∃ position, result = .error (.unbalancedClose position) := by
  unfold ofResult
  split <;> simp

theorem ofResult_eq_unexpectedEnd_iff :
    ofResult result = unexpectedEnd ↔ result = .error .unexpectedEnd := by
  unfold ofResult
  split <;> simp

theorem ofResult_eq_trailingInput_iff :
    ofResult result = trailingInput ↔ ∃ position, result = .error (.trailingInput position) := by
  unfold ofResult
  split <;> simp

end Verdict

/-- What the tokens of a text amount to: they begin with a closing parenthesis, or with a
whole expression, or they are the beginning of one. -/
inductive Shape where
  | closed
  | whole (e : Expr) (rest : List Token)
  | unfinished

namespace Shape

def Fits (ts : List Token) : Shape → Prop
  | closed => ts.head? = some .closing
  | whole e rest => ts = e.tokens ++ rest
  | unfinished => Expr.Unfinished ts

def verdict (stop : Option LexError) : Shape → Verdict
  | closed => .unbalancedClose
  | whole _ (_ :: _) => .trailingInput
  | whole e [] => stop.elim (.accepted e) .lex
  | unfinished => stop.elim .unexpectedEnd .lex

section Verdict

variable {stop : Option LexError} {s : Shape}

theorem verdict_eq_lex_iff {cause : LexError} :
    s.verdict stop = .lex cause ↔ (s = unfinished ∨ ∃ e, s = whole e []) ∧ stop = some cause := by
  unfold verdict
  split <;> cases stop <;> simp

theorem verdict_eq_unbalancedClose_iff : s.verdict stop = .unbalancedClose ↔ s = closed := by
  unfold verdict
  split <;> cases stop <;> simp

theorem verdict_eq_unexpectedEnd_iff :
    s.verdict stop = .unexpectedEnd ↔ s = unfinished ∧ stop = none := by
  unfold verdict
  split <;> cases stop <;> simp

theorem verdict_eq_trailingInput_iff :
    s.verdict stop = .trailingInput ↔ ∃ e t rest, s = whole e (t :: rest) := by
  unfold verdict
  split <;> cases stop <;> simp

end Verdict

theorem head?_ne_closing_of_whole (e : Expr) (rest : List Token) :
    (e.tokens ++ rest).head? ≠ some .closing := by
  cases e <;> simp [Expr.tokens]

theorem head?_ne_closing_of_unfinished {ts : List Token} (h : Expr.Unfinished ts) :
    ts.head? ≠ some .closing := by
  intro hhead
  obtain ⟨rest, rfl⟩ := List.head?_eq_some_iff.mp hhead
  exact Expr.not_unfinished_closing rest h

/-- Tokens have one shape at most. -/
theorem Fits.unique {ts : List Token} {s s' : Shape} (h : s.Fits ts) (h' : s'.Fits ts) :
    s = s' := by
  cases s with
  | closed =>
    cases s' with
    | closed => rfl
    | whole e rest => exact absurd h (h' ▸ head?_ne_closing_of_whole e rest)
    | unfinished => exact absurd h (head?_ne_closing_of_unfinished h')
  | whole e rest =>
    cases s' with
    | closed => exact absurd h' (h ▸ head?_ne_closing_of_whole e rest)
    | whole e' rest' =>
      obtain ⟨rfl, rfl⟩ := Expr.determined e (h.symm.trans h')
      rfl
    | unfinished => exact absurd h' (h ▸ Expr.not_unfinished_tokens_append e rest)
  | unfinished =>
    cases s' with
    | closed => exact absurd h' (head?_ne_closing_of_unfinished h)
    | whole e rest => exact absurd h (h' ▸ Expr.not_unfinished_tokens_append e rest)
    | unfinished => rfl

end Shape

namespace Parser

/-- A step that was stopped leaves a list open or an expression complete. -/
theorem exists_shape_of_step (step : Step) (cause : LexError) :
    ∃ s : Shape, s.Fits (tokensOfStep step) ∧ s.verdict (some cause) = .lex cause := by
  cases step with
  | done e => exact ⟨.whole e [], (List.append_nil _).symm, rfl⟩
  | more opened => exact ⟨.unfinished, Expr.unfinished_tokensOfOpened opened, rfl⟩

theorem Fails.exists_shape {l : Lexer} {cause : ParseError} (h : Fails l [] cause) :
    ∃ s : Shape, s.Fits l.scan.1 ∧ Verdict.ofResult (.error cause) = s.verdict l.scan.2 := by
  cases h with
  | @lex ts m step cause hreads hspell hstop =>
    obtain ⟨s, hs, hv⟩ := exists_shape_of_step step cause
    rw [hreads.scan_eq, scan_of_error hstop, List.append_nil]
    rw [tokensOfOpened, List.nil_append] at hspell
    exact ⟨s, hspell ▸ hs, hv.symm⟩
  | unexpectedEnd hreads hspell hstop =>
    rw [hreads.scan_eq, scan_of_end hstop, List.append_nil]
    rw [tokensOfOpened, List.nil_append] at hspell
    exact ⟨.unfinished, hspell ▸ Expr.unfinished_tokensOfOpened _, rfl⟩
  | unbalancedClose position _ hnext =>
    have hstep : l.next = (.ok (some .closing), l.next.2) := Prod.ext hnext rfl
    rw [scan_of_token hstep]
    exact ⟨.closed, rfl, rfl⟩

theorem exists_shape_parse {p : Parser} {l : Lexer} (hp : p.At l) :
    ∃ s : Shape, s.Fits l.scan.1 ∧ Verdict.ofResult p.parse.1 = s.verdict l.scan.2 := by
  unfold parse
  split
  case h_1 cause after hread => exact (fails_of_readFrom hread hp).exists_shape
  case h_2 e after hread =>
    obtain ⟨ts, m, hreads, hm, hspell⟩ := exists_reads_of_readFrom hread hp
    rw [tokensOfOpened, List.nil_append] at hspell
    subst hspell
    rw [hreads.scan_eq]
    cases hahead : after.lookahead with
    | none =>
      rw [scan_of_end (by rw [hm, hahead])]
      exact ⟨.whole e [], rfl, rfl⟩
    | some t =>
      rw [scan_of_token (hm.trans (by rw [hahead]))]
      exact ⟨.whole e (t :: after.lexer.scan.1), rfl, rfl⟩

end Parser

namespace Expr

theorem exists_shape (text : String) :
    ∃ s : Shape, s.Fits (ofText text).scan.1 ∧
      Verdict.ofResult (parse text) = s.verdict (ofText text).scan.2 := by
  unfold parse Parser.ofLexer
  split
  case h_1 cause after hnext =>
    rw [scan_of_error (by rw [hnext])]
    exact ⟨.unfinished, unfinished_nil, rfl⟩
  case h_2 ahead after hnext => exact Parser.exists_shape_parse hnext

/-- The shape of its tokens and what stops them settle what becomes of a text. -/
theorem ofResult_parse_eq_iff {text : String} {v : Verdict} :
    Verdict.ofResult (parse text) = v ↔
      ∃ s : Shape, s.Fits (ofText text).scan.1 ∧ s.verdict (ofText text).scan.2 = v := by
  obtain ⟨s, hs, hv⟩ := exists_shape text
  rw [hv]
  constructor
  · exact fun h => ⟨s, hs, h⟩
  · intro h
    obtain ⟨s', hs', h⟩ := h
    rw [hs.unique hs', h]

section Results

variable {text : String}

theorem parse_eq_unbalancedClose_iff :
    (∃ position, parse text = .error (.unbalancedClose position)) ↔
      (ofText text).scan.1.head? = some .closing := by
  rw [← Verdict.ofResult_eq_unbalancedClose_iff, ofResult_parse_eq_iff]
  simp only [Shape.verdict_eq_unbalancedClose_iff]
  constructor
  · rintro ⟨_, hs, rfl⟩
    exact hs
  · exact fun h => ⟨.closed, h, rfl⟩

theorem parse_eq_trailingInput_iff :
    (∃ position, parse text = .error (.trailingInput position)) ↔
      ∃ (e : Expr) (t : Token) (rest : List Token),
        (ofText text).scan.1 = e.tokens ++ t :: rest := by
  rw [← Verdict.ofResult_eq_trailingInput_iff, ofResult_parse_eq_iff]
  simp only [Shape.verdict_eq_trailingInput_iff]
  constructor
  · rintro ⟨_, hs, e, t, rest, rfl⟩
    exact ⟨e, t, rest, hs⟩
  · rintro ⟨e, t, rest, h⟩
    exact ⟨.whole e (t :: rest), h, e, t, rest, rfl⟩

theorem parse_eq_unexpectedEnd_iff :
    parse text = .error .unexpectedEnd ↔
      (ofText text).scan.2 = none ∧ Unfinished (ofText text).scan.1 := by
  rw [← Verdict.ofResult_eq_unexpectedEnd_iff, ofResult_parse_eq_iff]
  simp only [Shape.verdict_eq_unexpectedEnd_iff]
  constructor
  · rintro ⟨_, hs, rfl, hstop⟩
    exact ⟨hstop, hs⟩
  · rintro ⟨hstop, h⟩
    exact ⟨.unfinished, h, rfl, hstop⟩

theorem parse_eq_lex_iff {cause : LexError} :
    parse text = .error (.lex cause) ↔
      (ofText text).scan.2 = some cause ∧
        (Unfinished (ofText text).scan.1 ∨ ∃ e : Expr, (ofText text).scan.1 = e.tokens) := by
  rw [← Verdict.ofResult_eq_lex_iff, ofResult_parse_eq_iff]
  simp only [Shape.verdict_eq_lex_iff]
  constructor
  · rintro ⟨_, hs, rfl | ⟨e, rfl⟩, hstop⟩
    · exact ⟨hstop, Or.inl hs⟩
    · exact ⟨hstop, Or.inr ⟨e, hs.trans (List.append_nil _)⟩⟩
  · rintro ⟨hstop, h | ⟨e, h⟩⟩
    · exact ⟨.unfinished, h, Or.inl rfl, hstop⟩
    · exact ⟨.whole e [], h.trans (List.append_nil _).symm, Or.inr ⟨e, rfl⟩, hstop⟩

theorem parse_eq_ok_iff {e : Expr} :
    parse text = .ok e ↔ (ofText text).scan.2 = none ∧ (ofText text).scan.1 = e.tokens := by
  rw [parse_eq_ok_iff_scan_eq, Prod.ext_iff, and_comm]

end Results

/-- Every text is accepted or gets the one error that fits its tokens and what stops them. An
error of the lexer behind a whole expression and one more token is never reported. -/
theorem parse_result_iff (text : String) :
    ((∃ position, parse text = .error (.unbalancedClose position)) ↔
      (ofText text).scan.1.head? = some .closing) ∧
    ((∃ position, parse text = .error (.trailingInput position)) ↔
      ∃ (e : Expr) (t : Token) (rest : List Token),
        (ofText text).scan.1 = e.tokens ++ t :: rest) ∧
    (parse text = .error .unexpectedEnd ↔
      (ofText text).scan.2 = none ∧ Unfinished (ofText text).scan.1) ∧
    (∀ cause, parse text = .error (.lex cause) ↔
      (ofText text).scan.2 = some cause ∧
        (Unfinished (ofText text).scan.1 ∨ ∃ e : Expr, (ofText text).scan.1 = e.tokens)) ∧
    (∀ e, parse text = .ok e ↔
      (ofText text).scan.2 = none ∧ (ofText text).scan.1 = e.tokens) ∧
    ∀ (e : Expr) (t : Token) (rest : List Token), (ofText text).scan.1 = e.tokens ++ t :: rest →
      ∀ cause, parse text ≠ .error (.lex cause) := by
  refine ⟨parse_eq_unbalancedClose_iff, parse_eq_trailingInput_iff, parse_eq_unexpectedEnd_iff,
    fun cause => parse_eq_lex_iff, fun e => parse_eq_ok_iff, ?_⟩
  intro e t rest htokens cause hlex
  obtain ⟨position, htrailing⟩ := parse_eq_trailingInput_iff.mpr ⟨e, t, rest, htokens⟩
  rw [htrailing] at hlex
  cases hlex

theorem parse_result_iff_of_late_error :
    (ofText "(a) b \"c").scan = ([.opening, .atom (.symbol "a"), .closing, .atom (.symbol "b")],
      some (.unterminatedText 6)) ∧
    ∀ cause, parse "(a) b \"c" ≠ .error (.lex cause) := by
  have hscan : (ofText "(a) b \"c").scan = ([.opening, .atom (.symbol "a"), .closing,
      .atom (.symbol "b")], some (.unterminatedText 6)) := by
    decide +kernel
  refine ⟨hscan, ?_⟩
  apply (parse_result_iff "(a) b \"c").2.2.2.2.2 (list [symbol "a"]) (.atom (.symbol "b")) []
  rw [hscan]
  rfl

end Expr

end RadarQuery
