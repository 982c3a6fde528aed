import Mathlib.Logic.Function.Iterate
import RadarQuery.Proofs.Expr.Outcome

/-!
Successive calls of one parser. Each call passes one expression of the text as long as
another token follows it, and the next call begins with that token. The first call that
ends otherwise is the last to move the lexer: every later one fails, at the end that it
takes to be reached, or once at a closing parenthesis that was left.
-/

namespace RadarQuery

open Lexer

namespace Expr

theorem length_tokens_pos (e : Expr) : 0 < e.tokens.length := by
  cases e <;> simp [tokens]

/-- Every expression has a token of its own. -/
theorem length_le_length_tokensOfItems (es : List Expr) :
    es.length ≤ (tokensOfItems es).length := by
  induction es with
  | nil => exact Nat.le_refl 0
  | cons e es ih =>
    have hfirst := length_tokens_pos e
    simp only [tokensOfItems, List.length_cons, List.length_append]
    omega

end Expr

namespace Lexer

theorem Reads.length_lt {l m : Lexer} {ts : List Token} (h : Reads l ts m) (hts : 0 < ts.length) :
    m.rest.length < l.rest.length := by
  cases h with
  | nil => simp at hts
  | @cons _ k _ _ _ hnext hreads =>
    have hmove := length_next_lt (l := l) (by simp [hnext])
    have hsuffix := hreads.precedes.suffix.length_le
    simp only [hnext] at hmove
    omega

end Lexer

namespace Parser

def afterCalls (p : Parser) (n : ℕ) : Parser :=
  (fun p => p.parse.2)^[n] p

def result (p : Parser) (n : ℕ) : Except ParseError Expr :=
  (p.afterCalls n).parse.1

section Iterate

theorem afterCalls_succ (p : Parser) (n : ℕ) : p.afterCalls (n + 1) = p.parse.2.afterCalls n :=
  rfl

theorem afterCalls_add (p : Parser) (m n : ℕ) :
    p.afterCalls (m + n) = (p.afterCalls m).afterCalls n := by
  rw [Nat.add_comm]
  exact Function.iterate_add_apply _ n m p

theorem result_add (p : Parser) (m n : ℕ) : p.result (m + n) = (p.afterCalls m).result n := by
  rw [result, afterCalls_add, result]

end Iterate

section Spent

variable {p : Parser}

theorem parse_of_lookahead_none (h : p.lookahead = none) :
    p.parse = (.error .unexpectedEnd, p) := by
  obtain ⟨lexer, lookahead⟩ := p
  obtain rfl : lookahead = none := h
  rw [parse, readFrom]

theorem parse_of_lookahead_closing (h : p.lookahead = some .closing) :
    p.parse = (.error (.unbalancedClose p.lexer.position), ⟨p.lexer, none⟩) := by
  obtain ⟨lexer, lookahead⟩ := p
  obtain rfl : lookahead = some .closing := h
  rw [parse, readFrom]
  rfl

/-- Without a token a call changes nothing. -/
theorem afterCalls_of_lookahead_none (h : p.lookahead = none) (n : ℕ) : p.afterCalls n = p := by
  induction n with
  | zero => rfl
  | succ n ih => rw [afterCalls_succ, parse_of_lookahead_none h, ih]

theorem result_of_lookahead_none (h : p.lookahead = none) (n : ℕ) :
    p.result n = .error .unexpectedEnd := by
  rw [result, afterCalls_of_lookahead_none h, parse_of_lookahead_none h]

/-- A closing parenthesis is reported once, and then no token is left. -/
theorem lexer_afterCalls (h : p.lookahead = none ∨ p.lookahead = some .closing) (n : ℕ) :
    (p.afterCalls n).lexer = p.lexer := by
  rcases h with hnone | hclosing
  · rw [afterCalls_of_lookahead_none hnone]
  · cases n with
    | zero => rfl
    | succ n =>
      rw [afterCalls_succ, parse_of_lookahead_closing hclosing, afterCalls_of_lookahead_none rfl]

theorem result_of_lookahead_closing (h : p.lookahead = some .closing) (n : ℕ) :
    p.result n = .error .unexpectedEnd ∨
      n = 0 ∧ ∃ position, p.result n = .error (.unbalancedClose position) := by
  cases n with
  | zero =>
    refine Or.inr ⟨rfl, p.lexer.position, ?_⟩
    exact congrArg Prod.fst (parse_of_lookahead_closing h)
  | succ n =>
    refine Or.inl ?_
    rw [result, afterCalls_succ, parse_of_lookahead_closing h]
    exact result_of_lookahead_none rfl n

end Spent

section Passes

/-- Calls that each find another token behind an expression lead from one parser to another,
and from the place of the one in the text to that of the other. -/
inductive Passes : Lexer → Parser → List Expr → Lexer → Parser → Prop
  | nil {l : Lexer} {p : Parser} : p.At l → Passes l p [] l p
  | cons {l m n : Lexer} {p q r : Parser} {e : Expr} {es : List Expr} : p.At l →
      Reads l e.tokens m → p.parse = (.error (.trailingInput q.lexer.position), q) →
      Passes m q es n r → Passes l p (e :: es) n r

namespace Passes

variable {l m : Lexer} {p q : Parser} {es : List Expr}

theorem reads (h : Passes l p es m q) : Reads l (Expr.tokensOfItems es) m := by
  induction h with
  | nil => exact .nil _
  | cons _ hreads _ _ ih => exact hreads.append ih

theorem at_end (h : Passes l p es m q) : q.At m := by
  induction h with
  | nil hp => exact hp
  | cons _ _ _ _ ih => exact ih

theorem afterCalls_eq (h : Passes l p es m q) : p.afterCalls es.length = q := by
  induction h with
  | nil => rfl
  | cons _ _ hparse _ ih => rw [List.length_cons, afterCalls_succ, hparse, ih]

/-- The first of the calls are such calls as well. -/
theorem take (h : Passes l p es m q) (i : ℕ) : ∃ n r, Passes l p (es.take i) n r := by
  induction h generalizing i with
  | nil hp =>
    rw [List.take_nil]
    exact ⟨_, _, .nil hp⟩
  | @cons l m _ p q _ e es hp hreads hparse hrest ih =>
    cases i with
    | zero => exact ⟨l, p, .nil hp⟩
    | succ i =>
      obtain ⟨n, r, htake⟩ := ih i
      exact ⟨n, r, .cons hp hreads hparse htake⟩

/-- Each of the calls stops behind its expression with the token found there. -/
theorem result_eq (h : Passes l p es m q) {i : ℕ} (hi : i < es.length) :
    p.result i = .error (.trailingInput (p.afterCalls (i + 1)).lexer.position) := by
  induction h generalizing i with
  | nil => simp at hi
  | cons _ _ hparse _ ih =>
    cases i with
    | zero =>
      change _ = Except.error (ParseError.trailingInput (Parser.parse _).2.lexer.position)
      rw [hparse]
      exact congrArg Prod.fst hparse
    | succ i =>
      rw [result, afterCalls_succ, afterCalls_succ, hparse]
      exact ih (Nat.lt_of_succ_lt_succ hi)

end Passes

/-- From any place in a text such calls lead to one that ends otherwise. -/
theorem exists_passes {l : Lexer} {p : Parser} (hp : p.At l) :
    ∃ es m q, Passes l p es m q ∧ ∀ position, q.parse.1 ≠ .error (.trailingInput position) := by
  -- by induction on what is left of the text, which every passed expression makes shorter
  induction hlength : l.rest.length using Nat.strong_induction_on generalizing l p with
  | h length ih =>
    have hcall := outcome_parse hp
    generalize hparse : p.parse = result at hcall
    cases hcall with
    | @trailingInput e t m lexer hreads hnext =>
      have hlt : m.rest.length < length :=
        hlength ▸ hreads.length_lt (Expr.length_tokens_pos e)
      have hq : At ⟨lexer, some t⟩ m := hnext
      obtain ⟨es, n, q, hpasses, hlast⟩ := ih _ hlt hq rfl
      exact ⟨e :: es, n, q, .cons hp hreads hparse hpasses, hlast⟩
    | _ => exact ⟨[], l, p, .nil hp, by simp [hparse]⟩

end Passes

section Course

/-- After a call that found no token behind an expression at most a closing parenthesis is
left, and that only if the token behind it cannot be read. -/
theorem lookahead_of_parse {l : Lexer} {p : Parser} (hp : p.At l)
    (hlast : ∀ position, p.parse.1 ≠ .error (.trailingInput position)) :
    p.parse.2.lookahead = none ∨
      p.parse.2.lookahead = some .closing ∧ ∃ cause, p.parse.1 = .error (.lex cause) := by
  have hcall := outcome_parse hp
  generalize p.parse = result at hcall hlast
  cases hcall with
  | accepted => exact Or.inl rfl
  | trailingInput => exact absurd rfl (hlast _)
  | unbalancedClose => exact Or.inl rfl
  | unexpectedEnd => exact Or.inl rfl
  | lex cause hq => exact hq.imp_right fun hclosing => ⟨hclosing, cause, rfl⟩

/-- How successive calls go on a parser that begins at `l`. As many calls as there are
expressions in the list pass them, one each, and the tokens of the text begin with those
expressions. The call after them ends otherwise, and if it gives an expression, that is the
last of the text. The calls after that one leave the lexer where it is and fail. -/
structure Course (l : Lexer) (p : Parser) (es : List Expr) : Prop where
  passed : ∀ i < es.length,
    p.result i = .error (.trailingInput (p.afterCalls (i + 1)).lexer.position)
  /-- After each of these calls the parser stands behind the expressions passed so far. -/
  stands : ∀ i ≤ es.length,
    ∃ m, Reads l (Expr.tokensOfItems (es.take i)) m ∧ (p.afterCalls i).At m
  begins : Expr.tokensOfItems es <+: l.scan.1
  length_le : es.length ≤ l.scan.1.length
  last : ∀ position, p.result es.length ≠ .error (.trailingInput position)
  accepted : ∀ e, p.result es.length = .ok e → l.scan = (Expr.tokensOfItems (es ++ [e]), none)
  lexer_eq : ∀ n, es.length < n → (p.afterCalls n).lexer = (p.afterCalls (es.length + 1)).lexer
  /-- A parenthesis that was left is reported by the first of the later calls only. -/
  failed : ∀ n, es.length < n → p.result n = .error .unexpectedEnd ∨
    n = es.length + 1 ∧ (∃ cause, p.result es.length = .error (.lex cause)) ∧
      ∃ position, p.result n = .error (.unbalancedClose position)

theorem Passes.course {l m : Lexer} {p q : Parser} {es : List Expr} (h : Passes l p es m q)
    (hlast : ∀ position, q.parse.1 ≠ .error (.trailingInput position)) : Course l p es := by
  have hresult : p.result es.length = q.parse.1 := by rw [result, h.afterCalls_eq]
  have hafter : p.afterCalls (es.length + 1) = q.parse.2 := by
    rw [afterCalls_add, h.afterCalls_eq]
    rfl
  have hbegins : Expr.tokensOfItems es <+: l.scan.1 := by
    rw [h.reads.scan_eq]
    exact List.prefix_append _ _
  have hleft := lookahead_of_parse h.at_end hlast
  refine {
    passed := fun i hi => h.result_eq hi
    stands := ?_
    begins := hbegins
    length_le := (Expr.length_le_length_tokensOfItems es).trans hbegins.length_le
    last := hresult ▸ hlast
    accepted := ?_
    lexer_eq := ?_
    failed := ?_
  }
  · intro i hi
    obtain ⟨n, r, htake⟩ := h.take i
    have hr := htake.afterCalls_eq
    rw [List.length_take, Nat.min_eq_left hi] at hr
    exact ⟨n, htake.reads, hr ▸ htake.at_end⟩
  · intro e he
    rw [hresult, parse_eq_ok_iff h.at_end] at he
    obtain ⟨n, hreads, hend⟩ := he
    rw [(h.reads.append hreads).scan_eq, scan_of_end hend, Expr.tokensOfItems_append]
    simp [Expr.tokensOfItems]
  · intro n hn
    obtain ⟨k, rfl⟩ := Nat.exists_eq_add_of_le (Nat.succ_le_of_lt hn)
    rw [Nat.succ_eq_add_one, afterCalls_add, hafter]
    exact lexer_afterCalls (hleft.imp_right And.left) k
  · intro n hn
    obtain ⟨k, rfl⟩ := Nat.exists_eq_add_of_le (Nat.succ_le_of_lt hn)
    rw [Nat.succ_eq_add_one, result_add, hafter, hresult]
    rcases hleft with hend | ⟨hclosing, hlex⟩
    · exact Or.inl (result_of_lookahead_none hend k)
    · rcases result_of_lookahead_closing hclosing k with hend | ⟨rfl, hclose⟩
      · exact Or.inl hend
      · exact Or.inr ⟨rfl, hlex, hclose⟩

/-- On every text whose first token can be read, successive calls take such a course. -/
theorem exists_course {text : String} {p : Parser} (h : ofLexer (ofText text) = .ok p) :
    ∃ es, Course (ofText text) p es := by
  obtain ⟨es, m, q, hpasses, hlast⟩ := exists_passes (ofLexer_eq_ok_iff.mp h)
  exact ⟨es, hpasses.course hlast⟩

/-- The first call passes a word. The second cannot read what stands behind the list, and the
parenthesis of the list is what the third begins with. -/
theorem exists_course_left_parenthesis :
    ∃ p es, ofLexer (ofText "a ()\"") = .ok p ∧ Course (ofText "a ()\"") p es ∧
      es.length = 1 ∧ p.result 1 = .error (.lex (.unterminatedText 4)) ∧
      p.result 2 = .error (.unbalancedClose 5) := by
  let p : Parser := ⟨⟨1, [' ', '(', ')', '"']⟩, some (.atom (.symbol "a"))⟩
  let q : Parser := ⟨⟨3, [')', '"']⟩, some .opening⟩
  have hp : ofLexer (ofText "a ()\"") = .ok p := rfl
  have hword : Reads (ofText "a ()\"") (Expr.symbol "a").tokens p.lexer := Reads.single rfl
  have hq : q.At p.lexer := rfl
  have hfirst : p.parse = (.error (.trailingInput 3), q) :=
    parse_eq_trailingInput (ofLexer_eq_ok_iff.mp hp) hword hq rfl
  have hsecond : q.parse = (.error (.lex (.unterminatedText 4)), ⟨⟨5, []⟩, some .closing⟩) := by
    have hclosing : At ⟨⟨4, ['"']⟩, some .closing⟩ q.lexer := rfl
    rw [parse, readFrom_shift rfl hclosing, resume, readFrom]
    rfl
  obtain ⟨es, hcourse⟩ := exists_course hp
  have hzero : p.result 0 = .error (.trailingInput 3) := congrArg Prod.fst hfirst
  have hone : p.result 1 = .error (.lex (.unterminatedText 4)) := by
    rw [result, afterCalls_succ, hfirst]
    exact congrArg Prod.fst hsecond
  have htwo : p.result 2 = .error (.unbalancedClose 5) := by
    rw [result, afterCalls_succ, hfirst, afterCalls_succ, hsecond]
    exact congrArg Prod.fst (parse_of_lookahead_closing rfl)
  refine ⟨p, es, hp, hcourse, ?_, hone, htwo⟩
  have hsome : es.length ≠ 0 := fun hnone => hcourse.last 3 (hnone ▸ hzero)
  have hsingle : ¬1 < es.length := fun hmore => by simpa [hone] using hcourse.passed 1 hmore
  omega

end Course

end Parser

end RadarQuery
