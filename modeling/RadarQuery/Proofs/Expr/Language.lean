import Mathlib.Data.List.Induction
import Mathlib.Logic.Basic
import RadarQuery.Proofs.Expr.Grammar
import RadarQuery.Proofs.Token.Scan

/-!
The tokens of expressions as a language. Where the tokens of an expression begin, they
settle the expression and where it ends, so no expression is a proper beginning of
another one. A text is accepted exactly if the tokens in it, up to the end of the
text, are those of the result.
-/

namespace RadarQuery.Expr

theorem tokens_append_ne_closing (e : Expr) (rest rest' : List Token) :
    e.tokens ++ rest ≠ .closing :: rest' := by
  cases e <;> simp [tokens]

/-- The tokens begin with those of `e` in no other way. -/
def Determined (e : Expr) : Prop :=
  ∀ ⦃e' : Expr⦄ ⦃rest rest' : List Token⦄, e.tokens ++ rest = e'.tokens ++ rest' →
    e = e' ∧ rest = rest'

/-- A closing parenthesis behind the elements of a list settles how many there are. -/
theorem tokensOfItems_closing_inj {es es' : List Expr} (hes : ∀ e ∈ es, Determined e)
    {rest rest' : List Token}
    (h : tokensOfItems es ++ .closing :: rest = tokensOfItems es' ++ .closing :: rest') :
    es = es' ∧ rest = rest' := by
  induction es generalizing es' with
  | nil =>
    cases es' with
    | nil => exact ⟨rfl, List.tail_eq_of_cons_eq h⟩
    | cons e' es' =>
      rw [tokensOfItems, tokensOfItems, List.append_assoc] at h
      exact absurd h.symm (tokens_append_ne_closing e' _ _)
  | cons e es ih =>
    obtain ⟨hfirst, hothers⟩ := List.forall_mem_cons.mp hes
    cases es' with
    | nil =>
      rw [tokensOfItems, tokensOfItems, List.append_assoc] at h
      exact absurd h (tokens_append_ne_closing e _ _)
    | cons e' es' =>
      rw [tokensOfItems, tokensOfItems, List.append_assoc, List.append_assoc] at h
      obtain ⟨rfl, hrest⟩ := hfirst h
      obtain ⟨rfl, rfl⟩ := ih hothers hrest
      exact ⟨rfl, rfl⟩

theorem determined (e : Expr) : Determined e := by
  induction e using Expr.induction with
  | atom a =>
    intro e' rest rest' h
    cases e' with
    | atom b => simpa [tokens] using h
    | list items => simp [tokens] at h
  | list items ih =>
    intro e' rest rest' h
    cases e' with
    | atom b => simp [tokens] at h
    | list items' =>
      simp only [tokens, List.cons_append, List.append_assoc, List.nil_append] at h
      obtain ⟨rfl, rfl⟩ := tokensOfItems_closing_inj ih (List.tail_eq_of_cons_eq h)
      exact ⟨rfl, rfl⟩

/-- Different expressions have different tokens. -/
theorem tokens_inj {e e' : Expr} : e.tokens = e'.tokens ↔ e = e' := by
  constructor
  · intro h
    exact (determined e (congrArg (· ++ []) h)).1
  · exact congrArg tokens

def Unfinished (ts : List Token) : Prop :=
  ∃ (e : Expr) (missing : List Token), missing ≠ [] ∧ ts ++ missing = e.tokens

theorem unfinished_nil : Unfinished [] :=
  ⟨list [], tokens (list []), by simp [tokens], rfl⟩

theorem Unfinished.of_append {ts more : List Token} (h : Unfinished (ts ++ more)) :
    Unfinished ts := by
  obtain ⟨e, missing, hmissing, heq⟩ := h
  refine ⟨e, more ++ missing, by simp [hmissing], ?_⟩
  rw [← heq, List.append_assoc]

theorem not_unfinished_tokens_append (e : Expr) (rest : List Token) :
    ¬Unfinished (e.tokens ++ rest) := by
  intro h
  obtain ⟨e', missing, hmissing, heq⟩ := h
  rw [List.append_assoc, ← List.append_nil e'.tokens] at heq
  have hnil := (determined e heq).2
  exact hmissing (List.append_eq_nil_iff.mp hnil).2

theorem not_unfinished_closing (rest : List Token) : ¬Unfinished (.closing :: rest) := by
  intro h
  obtain ⟨e, missing, -, heq⟩ := h
  rw [← List.append_nil e.tokens] at heq
  exact tokens_append_ne_closing e [] _ heq.symm

/-- Open lists can always be closed, the innermost first. -/
theorem unfinished_tokensOfOpened (opened : List (List Expr)) :
    Unfinished (Parser.tokensOfOpened opened) := by
  cases opened with
  | nil => exact unfinished_nil
  | cons items outer =>
    induction outer generalizing items with
    | nil =>
      have hshift : Parser.shift .closing [items] = some (.done (list items.reverse)) := rfl
      have hclose := Parser.tokensOfStep_shift hshift
      exact ⟨list items.reverse, [.closing], by simp, hclose.symm⟩
    | cons items' outer ih =>
      have hshift : Parser.shift .closing (items :: items' :: outer) =
          some (.more ((list items.reverse :: items') :: outer)) := rfl
      have hclose := Parser.tokensOfStep_shift hshift
      rw [Parser.tokensOfStep] at hclose
      obtain ⟨e, missing, -, heq⟩ := ih (list items.reverse :: items')
      refine ⟨e, .closing :: missing, by simp, ?_⟩
      rw [← heq, hclose, List.append_assoc, List.singleton_append]

/-- Unfinished tokens leave lists open. The tokens are read one after the other, and none of them
completes an expression. -/
theorem Unfinished.exists_opened {ts : List Token} (h : Unfinished ts) :
    ∃ opened, Parser.tokensOfOpened opened = ts := by
  induction ts using List.reverseRecOn with
  | nil => exact ⟨[], rfl⟩
  | append_singleton ts t ih =>
    obtain ⟨opened, rfl⟩ := ih h.of_append
    cases hshift : Parser.shift t opened with
    | none =>
      obtain ⟨rfl, rfl⟩ := Parser.shift_eq_none_iff.mp hshift
      exact absurd h (not_unfinished_closing [])
    | some step =>
      have hread := Parser.tokensOfStep_shift hshift
      cases step with
      | done e =>
        rw [← hread, Parser.tokensOfStep, ← List.append_nil e.tokens] at h
        exact absurd h (not_unfinished_tokens_append e [])
      | more opened' => exact ⟨opened', hread⟩

/-- In an open list an atom may follow. -/
theorem Unfinished.append_atom {ts : List Token} (h : Unfinished ts) (hne : ts ≠ []) (a : Atom) :
    Unfinished (ts ++ [.atom a]) := by
  obtain ⟨opened, rfl⟩ := h.exists_opened
  cases opened with
  | nil => exact absurd rfl hne
  | cons items outer =>
    have hshift : Parser.shift (.atom a) (items :: outer) =
        some (.more ((atom a :: items) :: outer)) := rfl
    have hread := Parser.tokensOfStep_shift hshift
    rw [← hread]
    exact unfinished_tokensOfOpened _

theorem parse_eq_ok_iff_scan_eq {text : String} {e : Expr} :
    parse text = .ok e ↔ (Lexer.ofText text).scan = (e.tokens, none) :=
  parse_eq_ok_iff_reads.trans Lexer.scan_eq_none_iff.symm

/-- A text is accepted as an expression exactly if its tokens, up to its end and without an
error among them, are those of the expression, and they are the tokens of no other one. -/
theorem parse_eq_ok_iff_tokens (text : String) (e : Expr) :
    (parse text = .ok e ↔ (Lexer.ofText text).scan = (e.tokens, none)) ∧
      ∀ e' : Expr, e'.tokens = e.tokens ↔ e' = e :=
  ⟨parse_eq_ok_iff_scan_eq, fun _ => tokens_inj⟩

end RadarQuery.Expr
