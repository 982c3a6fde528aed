import RadarQuery.Expr.Parser
import RadarQuery.Proofs.Expr.Structure
import RadarQuery.Proofs.Token.Reading

/-!
The parser accepts the bracketings. Over the tokens of an expression it moves
from the first of them to the one behind the last, whatever lists are open
around it. In the other direction, the lists that are open at any time spell the
tokens read so far, so a result spells all of them.
-/

namespace RadarQuery

open Lexer

namespace Parser

/-- The parser stands at the lexer with the next token read ahead. -/
def At (p : Parser) (l : Lexer) : Prop :=
  l.next = (.ok p.lookahead, p.lexer)

/-- How the parser goes on after a token, with the token behind it read ahead. -/
def resume : Step → Parser → Except ParseError Expr × Parser
  | .done e, p => (.ok e, p)
  | .more opened, p => readFrom p.lexer p.lookahead opened

theorem At.eq {p : Parser} {l m : Lexer} {ahead : Option Token} (hp : p.At l)
    (h : l.next = (.ok ahead, m)) : p = ⟨m, ahead⟩ := by
  obtain ⟨hahead, hlexer⟩ : p.lookahead = ahead ∧ p.lexer = m := by
    simpa using hp.symm.trans h
  rw [← hahead, ← hlexer]

theorem readFrom_shift {lexer : Lexer} {token : Token} {opened : List (List Expr)} {step : Step}
    {q : Parser} (hshift : shift token opened = some step) (hq : q.At lexer) :
    readFrom lexer (some token) opened = resume step q := by
  rw [readFrom]
  simp only [hshift]
  split
  case h_1 cause after hnext => simp [At, hnext] at hq
  case h_2 ahead after hnext =>
    rw [hq.eq hnext]
    cases step <;> rfl

/-- Before a run there is a token to read ahead if there is one behind it. -/
theorem exists_at {l m : Lexer} {ts : List Token} {q : Parser} (h : Reads l ts m) (hq : q.At m) :
    ∃ p : Parser, p.At l := by
  cases h with
  | nil => exact ⟨q, hq⟩
  | @cons _ n _ t _ hnext _ => exact ⟨⟨n, some t⟩, hnext⟩

/-- The parser moves over the tokens of `e` and completes it. -/
def Completes (e : Expr) : Prop :=
  ∀ ⦃l m : Lexer⦄ ⦃p q : Parser⦄, Reads l e.tokens m → p.At l → q.At m →
    ∀ opened, readFrom p.lexer p.lookahead opened = resume (place e opened) q

theorem readFrom_tokensOfItems {es : List Expr} (hes : ∀ e ∈ es, Completes e) {l m : Lexer}
    {p q : Parser} (h : Reads l (Expr.tokensOfItems es) m) (hp : p.At l) (hq : q.At m)
    (items : List Expr) (outer : List (List Expr)) :
    readFrom p.lexer p.lookahead (items :: outer) =
      readFrom q.lexer q.lookahead ((es.reverse ++ items) :: outer) := by
  induction es generalizing l p items with
  | nil =>
    cases h
    rw [hp.eq hq, List.reverse_nil, List.nil_append]
  | cons e es ih =>
    obtain ⟨hfirst, hrest⟩ := List.forall_mem_cons.mp hes
    obtain ⟨n, hreads, hreads'⟩ := h.split
    obtain ⟨r, hr⟩ := exists_at hreads' hq
    rw [hfirst hreads hp hr, place, resume, ih hrest hreads' hr, List.reverse_cons,
      List.append_assoc, List.singleton_append]

theorem completes (e : Expr) : Completes e := by
  induction e using Expr.induction with
  | atom a =>
    intro l m p q h hp hq opened
    cases h with
    | cons hnext hrest =>
      cases hrest
      rw [hp.eq hnext]
      exact readFrom_shift rfl hq
  | list items ih =>
    intro l m p q h hp hq opened
    cases h with
    | cons hnext hrest =>
      obtain ⟨k, hitems, hclosing⟩ := hrest.split
      cases hclosing with
      | cons hnext' hrest' =>
        cases hrest'
        have hk : At ⟨m, some .closing⟩ k := hnext'
        obtain ⟨r, hr⟩ := exists_at hitems hk
        rw [hp.eq hnext, readFrom_shift rfl hr, resume, readFrom_tokensOfItems ih hitems hr hk,
          readFrom_shift rfl hq, List.append_nil, List.reverse_reverse]

def tokensOfOpened : List (List Expr) → List Token
  | [] => []
  | items :: outer => tokensOfOpened outer ++ .opening :: Expr.tokensOfItems items.reverse

def tokensOfStep : Step → List Token
  | .done e => e.tokens
  | .more opened => tokensOfOpened opened

theorem tokensOfStep_place (e : Expr) (opened : List (List Expr)) :
    tokensOfStep (place e opened) = tokensOfOpened opened ++ e.tokens := by
  cases opened with
  | nil => rfl
  | cons items outer =>
    simp [place, tokensOfStep, tokensOfOpened, Expr.tokensOfItems_append, Expr.tokensOfItems]

theorem shift_eq_none_iff {token : Token} {opened : List (List Expr)} :
    shift token opened = none ↔ token = .closing ∧ opened = [] := by
  cases token with
  | closing => cases opened <;> simp [shift]
  | _ => simp [shift]

/-- A step adds its token to those that have been read. -/
theorem tokensOfStep_shift {token : Token} {opened : List (List Expr)} {step : Step}
    (h : shift token opened = some step) :
    tokensOfStep step = tokensOfOpened opened ++ [token] := by
  cases token with
  | opening =>
    obtain rfl : .more ([] :: opened) = step := by simpa [shift] using h
    simp [tokensOfStep, tokensOfOpened, Expr.tokensOfItems]
  | closing =>
    cases opened with
    | nil => simp [shift] at h
    | cons items outer =>
      obtain rfl : place (.list items.reverse) outer = step := by simpa [shift] using h
      simp [tokensOfStep_place, tokensOfOpened, Expr.tokens]
  | atom a =>
    obtain rfl : place (.atom a) opened = step := by simpa [shift] using h
    simp [tokensOfStep_place, Expr.tokens]

/-- A complete expression is spelled by the tokens before and those in the run. -/
theorem exists_reads_of_readFrom {lexer : Lexer} {lookahead : Option Token}
    {opened : List (List Expr)} {e : Expr} {q : Parser}
    (h : readFrom lexer lookahead opened = (.ok e, q)) {l : Lexer}
    (hl : l.next = (.ok lookahead, lexer)) :
    ∃ ts m, Reads l ts m ∧ q.At m ∧ tokensOfOpened opened ++ ts = e.tokens := by
  fun_induction readFrom lexer lookahead opened generalizing l with
  | case1 => simp at h
  | case2 => simp at h
  | case3 => simp at h
  | case4 lexer opened token ahead after hnext e' hshift =>
    obtain ⟨rfl, rfl⟩ : e' = e ∧ (⟨after, ahead⟩ : Parser) = q := by simpa using h
    have hspell := tokensOfStep_shift hshift
    exact ⟨[token], lexer, Reads.single hl, hnext, hspell.symm⟩
  | case5 lexer opened token ahead after hnext opened' hshift ih =>
    obtain ⟨ts, m, hreads, hq, hspell⟩ := ih h hnext
    have hopened := tokensOfStep_shift hshift
    refine ⟨token :: ts, m, Reads.cons hl hreads, hq, ?_⟩
    rw [← hspell, tokensOfStep] at *
    rw [hopened, List.append_assoc, List.singleton_append]

theorem parse_eq_ok_iff {p : Parser} {l : Lexer} {e : Expr} (hp : p.At l) :
    p.parse.1 = .ok e ↔ ∃ m, Reads l e.tokens m ∧ m.next.1 = .ok none := by
  constructor
  · intro h
    unfold parse at h
    split at h
    case h_1 => simp at h
    case h_2 e' after hread =>
      split at h
      case isFalse => simp at h
      case isTrue hend =>
        obtain rfl : e' = e := by simpa using h
        obtain ⟨ts, m, hreads, hm, hspell⟩ := exists_reads_of_readFrom hread hp
        rw [tokensOfOpened, List.nil_append] at hspell
        exact ⟨m, hspell ▸ hreads, by rw [hm, Option.isNone_iff_eq_none.mp hend]⟩
  · rintro ⟨m, hreads, hm⟩
    have hq : At ⟨m.next.2, none⟩ m := Prod.ext hm rfl
    simp [parse, completes e hreads hp hq [], place, resume]

end Parser

/-- A text is accepted as an expression if and only if its tokens are those of the
expression and the end follows them. -/
theorem Expr.parse_eq_ok_iff_reads {text : String} {e : Expr} :
    Expr.parse text = .ok e ↔ ∃ m, Reads (ofText text) e.tokens m ∧ m.next.1 = .ok none := by
  unfold Expr.parse Parser.ofLexer
  split
  case h_1 cause after hnext =>
    constructor
    · intro h
      cases h
    · rintro ⟨m, hreads, hm⟩
      generalize e.tokens = ts at hreads
      cases hreads with
      | nil => simp [hnext] at hm
      | cons hnext' => simp [hnext] at hnext'
  case h_2 ahead after hnext => exact Parser.parse_eq_ok_iff hnext

end RadarQuery
