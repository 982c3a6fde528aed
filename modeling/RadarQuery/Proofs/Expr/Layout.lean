import RadarQuery.Proofs.Expr.Grammar
import RadarQuery.Proofs.Expr.Normal
import RadarQuery.Proofs.Token.Calls

/-!
Layouts of an expression. Whatever blanks set its tokens apart, the text is accepted and
gives the expression, with its special floats turned into symbols. The text of an expression
is one of these layouts: a space in front of every element of a list but the first, and no
other blanks.
-/

namespace RadarQuery.Expr

open Lexer

section Reading

variable {e : Expr}

/-- Every layout of the tokens of an expression is read as its normal form. -/
theorem parse_spread {pieces : List Piece} {behind : List Char} (he : e.SymbolsReadable)
    (htokens : pieces.map Piece.token = e.tokens) (hlayout : Layout pieces)
    (hbehind : ∀ c ∈ behind, Text.isBlank c) :
    parse (String.ofList (spread pieces ++ behind)) = .ok e.normal := by
  have hreadable : ∀ p ∈ pieces, p.token.isReadable := fun p hp =>
    isReadable_of_mem_tokens he (htokens ▸ List.mem_map_of_mem hp)
  have hended : behind.head?.any (!isDelimiter ·) = false := by
    cases behind with
    | nil => rfl
    | cons c cs => simp [isDelimiter, hbehind c (List.mem_cons_self ..)]
  have hnormal : pieces.map (fun p => p.token.normal) = e.normal.tokens := by
    rw [tokens_normal, ← htokens, List.map_map]
    rfl
  have hreads := hlayout.reads_spread hreadable (fun _ _ _ => hended) 0
  rw [hnormal] at hreads
  rw [parse_eq_ok_iff_reads, ofText, String.toList_ofList]
  exact ⟨_, hreads, next_eq_none_iff.mpr hbehind⟩

/-- Blanks do not count. A text that has the tokens of an expression in it, each as it is
written, is read as that expression whatever blanks stand around them, if there are some
between any two words. -/
theorem parse_layout {text : String} (pieces : List Piece) (behind : List Char)
    (he : e.SymbolsReadable) (hfinite : e.FloatsFinite)
    (htokens : pieces.map Piece.token = e.tokens) (hlayout : Layout pieces)
    (hbehind : ∀ c ∈ behind, Text.isBlank c) (htext : text.toList = spread pieces ++ behind) :
    parse text = .ok e := by
  rw [← String.ofList_toList (s := text), htext, parse_spread he htokens hlayout hbehind,
    (normal_eq_self_iff e).mpr hfinite]

/-- A name, a list and two texts that touch each other, and blanks other than spaces around the
numbers. -/
theorem parse_layout_mixed :
    parse "\u2003(in(\"a  \\\"b) \"\"(\" )\t-7\u00a00.0(\n))\r" =
      .ok (list [symbol "in", list [text "a  \"b) ", text "("], integer (-7), float .zero,
        list []]) :=
  parse_layout
    [⟨['\u2003'], .opening⟩, ⟨[], .atom (.symbol "in")⟩, ⟨[], .opening⟩,
      ⟨[], .atom (.text "a  \"b) ")⟩, ⟨[], .atom (.text "(")⟩, ⟨[' '], .closing⟩,
      ⟨['\t'], .atom (.integer (-7))⟩, ⟨['\u00a0'], .atom (.float .zero)⟩, ⟨[], .opening⟩,
      ⟨['\n'], .closing⟩, ⟨[], .closing⟩]
    ['\r'] (by decide +kernel) (by decide +kernel) rfl (by decide +kernel)
    (List.forall_mem_singleton.mpr rfl) (by decide +kernel)

end Reading

section Canonical

mutual

/-- The tokens of an expression as they are written, with these blanks in front of the first. -/
def pieces (blanks : List Char) : Expr → List Piece
  | atom a => [⟨blanks, .atom a⟩]
  | list items => ⟨blanks, .opening⟩ :: (piecesOfItems [] items ++ [⟨[], .closing⟩])

def piecesOfItems (blanks : List Char) : List Expr → List Piece
  | [] => []
  | e :: es => pieces blanks e ++ piecesOfItems [' '] es

end

theorem map_token_piecesOfItems {es : List Expr}
    (hes : ∀ e ∈ es, ∀ blanks, (pieces blanks e).map Piece.token = e.tokens)
    (blanks : List Char) : (piecesOfItems blanks es).map Piece.token = tokensOfItems es := by
  induction es generalizing blanks with
  | nil => rfl
  | cons e es ih =>
    obtain ⟨hfirst, hrest⟩ := List.forall_mem_cons.mp hes
    rw [piecesOfItems, List.map_append, hfirst, ih hrest, tokensOfItems]

theorem map_token_pieces (e : Expr) (blanks : List Char) :
    (pieces blanks e).map Piece.token = e.tokens := by
  induction e using Expr.induction generalizing blanks with
  | atom a => rfl
  | list items ih =>
    simp only [pieces, tokens, List.map_cons, List.map_append, map_token_piecesOfItems ih,
      List.map_nil]

theorem spread_piecesOfItems {es : List Expr}
    (hes : ∀ e ∈ es, ∀ blanks, spread (pieces blanks e) = blanks ++ e.chars) :
    spread (piecesOfItems [' '] es) = charsAfter es := by
  induction es with
  | nil => rfl
  | cons e es ih =>
    obtain ⟨hfirst, hrest⟩ := List.forall_mem_cons.mp hes
    rw [piecesOfItems, spread_append, hfirst, ih hrest, charsAfter, List.append_assoc,
      List.singleton_append]

/-- The pieces make up the text of the expression. -/
theorem spread_pieces (e : Expr) (blanks : List Char) :
    spread (pieces blanks e) = blanks ++ e.chars := by
  induction e using Expr.induction generalizing blanks with
  | atom a => exact List.append_nil _
  | list items ih =>
    have hopening : Piece.chars ⟨blanks, .opening⟩ = blanks ++ ['('] := rfl
    have hclosing : spread [⟨[], .closing⟩] = [')'] := rfl
    rw [pieces, spread_cons, spread_append, hopening, hclosing]
    cases items with
    | nil => simp [piecesOfItems, spread, chars]
    | cons first others =>
      obtain ⟨hfirst, hothers⟩ := List.forall_mem_cons.mp ih
      simp [piecesOfItems, spread_append, hfirst, spread_piecesOfItems hothers, chars]

theorem exists_pieces_eq_cons (e : Expr) (blanks : List Char) :
    ∃ t ps, pieces blanks e = ⟨blanks, t⟩ :: ps := by
  cases e <;> exact ⟨_, _, rfl⟩

/-- The elements behind the first begin with a space. -/
theorem blanks_of_head?_piecesOfItems {es : List Expr} {blanks : List Char} {p : Piece}
    (hp : p ∈ (piecesOfItems blanks es).head?) : p.blanks = blanks := by
  cases es with
  | nil => cases hp
  | cons e es =>
    obtain ⟨t, ps, hpieces⟩ := exists_pieces_eq_cons e blanks
    rw [piecesOfItems, hpieces] at hp
    cases hp
    rfl

theorem layout_piecesOfItems {es : List Expr} (hes : ∀ e ∈ es, ∀ blanks : List Char,
      (∀ c ∈ blanks, Text.isBlank c) → Layout (pieces blanks e))
    {blanks : List Char} (hblanks : ∀ c ∈ blanks, Text.isBlank c) :
    Layout (piecesOfItems blanks es) := by
  induction es generalizing blanks with
  | nil => exact Layout.nil
  | cons e es ih =>
    obtain ⟨hfirst, hrest⟩ := List.forall_mem_cons.mp hes
    refine (hfirst blanks hblanks).append (ih hrest (List.forall_mem_singleton.mpr rfl)) ?_
    intro p _ q hq _ _
    rw [blanks_of_head?_piecesOfItems hq]
    exact List.cons_ne_nil _ _

theorem layout_pieces (e : Expr) {blanks : List Char} (hblanks : ∀ c ∈ blanks, Text.isBlank c) :
    Layout (pieces blanks e) := by
  induction e using Expr.induction generalizing blanks with
  | atom a => exact Layout.single hblanks
  | list items ih =>
    have hitems : Layout (piecesOfItems [] items) := layout_piecesOfItems ih (by simp)
    have hclosed : Layout (piecesOfItems [] items ++ [⟨[], .closing⟩]) := by
      refine hitems.append (Layout.single (by simp)) ?_
      intro p _ q hq _ hword
      cases hq
      cases hword
    refine (Layout.single hblanks).append hclosed ?_
    intro p hp q _ hword
    cases hp
    cases hword

/-- With readable symbols the text of an expression is accepted, and only the special values of
floats come back as something else. -/
theorem parse_render {e : Expr} (he : e.SymbolsReadable) : parse e.render = .ok e.normal := by
  have hparse := parse_spread he (map_token_pieces e []) (layout_pieces e (by simp))
    (List.forall_mem_nil _)
  rwa [spread_pieces, List.nil_append, List.append_nil] at hparse

end Canonical

end RadarQuery.Expr
