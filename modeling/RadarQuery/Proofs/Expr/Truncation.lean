import RadarQuery.Proofs.Expr.Layout
import RadarQuery.Proofs.Expr.Rejection
import RadarQuery.Proofs.Text.Quoted

/-!
Queries that are cut short. The tokens in front of the cut are read as before, and as long as
the last closing parenthesis is missing they are unfinished. What is left of a token in the
middle of which the cut falls is a text without an end, or a word. The word may be read as
another atom, which leaves the list open, or it is no number.
-/

namespace RadarQuery

open Lexer Text.Quoted

def Atom.cutError (a : Atom) (part : List Char) (start : ℕ) : LexError :=
  match a with
  | text _ => .unterminatedText start
  | _ => .invalidNumber (String.ofList part) start

/-- What a call may give where part of an atom is all that is left of the input. -/
inductive CutOutcome (a : Atom) (part : List Char) (start : ℕ) :
    Except LexError (Option Token) × Lexer → Prop
  | atom (b : Atom) (m : Lexer) : m.rest = [] → CutOutcome a part start (.ok (some (.atom b)), m)
  | error (m : Lexer) : CutOutcome a part start (.error (a.cutError part start), m)

section Cut

variable {part : List Char}

theorem Atom.next_cut_text {s : String} (hne : part ≠ []) (hpart : part <+: (text s).chars)
    (hproper : part ≠ (text s).chars) (position : ℕ) :
    CutOutcome (text s) part position (next ⟨position, part⟩) := by
  rw [Atom.chars, encode, List.cons_append] at hpart hproper
  obtain ⟨cs, rfl, hcs⟩ := (List.prefix_cons_iff.mp hpart).resolve_left hne
  have hspelling : cs <+: s.toList.flatMap escape :=
    (List.prefix_concat_iff.mp hcs).resolve_left fun heq => hproper (congrArg _ heq)
  have hread := ((spells_flatMap_escape s.toList).scans_of_isPrefix hspelling).eq
  have hnext : next ⟨position, '"' :: cs⟩ = readText position cs := rfl
  rw [hnext, readText, hread]
  exact .error _

/-- A word that is cut short is a word. -/
theorem Atom.next_cut_word {a : Atom} (ha : a.isReadable) (htext : a.kind ≠ .text)
    (hne : part ≠ []) (hpart : part <+: a.chars) (position : ℕ) :
    CutOutcome a part position (next ⟨position, part⟩) := by
  obtain ⟨-, hclear, -⟩ := Atom.word_chars ha htext
  have hword : ∀ c ∈ part, isDelimiter c = false := fun c hc => hclear c (hpart.subset hc)
  have hnext := next_word position [] hne hword rfl
  rw [List.append_nil] at hnext
  rw [hnext]
  cases classify part with
  | some b => exact .atom b _ rfl
  | none =>
    cases a with
    | text s => exact absurd rfl htext
    | _ => exact .error _

/-- Only an atom can be cut. -/
theorem Token.next_cut {t : Token} (ht : t.isReadable) (hne : part ≠ []) (hpart : part <+: t.chars)
    (hproper : part ≠ t.chars) (position : ℕ) :
    ∃ a, t = .atom a ∧ CutOutcome a part position (next ⟨position, part⟩) := by
  have hsingle : ∀ c, t.chars ≠ [c] := by
    intro c heq
    rw [heq] at hpart hproper
    rcases List.prefix_cons_iff.mp hpart with rfl | ⟨others, rfl, hothers⟩
    · exact hne rfl
    · exact hproper (congrArg _ (List.prefix_nil.mp hothers))
  cases t with
  | opening => exact absurd rfl (hsingle '(')
  | closing => exact absurd rfl (hsingle ')')
  | atom a =>
    refine ⟨a, rfl, ?_⟩
    by_cases htext : a.kind = .text
    · cases a with
      | text s => exact Atom.next_cut_text hne hpart hproper position
      | _ => cases htext
    · exact Atom.next_cut_word ht htext hne hpart position

end Cut

namespace Expr

/-- A text ends inside an atom of an expression. The tokens in front of it are complete, and
some of its characters are there, from a position on. -/
structure EndsInside (text : String) (e : Expr) (a : Atom) (part : List Char) (start : ℕ) :
    Prop where
  tokens : ∃ before behind, e.tokens = before ++ .atom a :: behind ∧
    (ofText text).scan.1 = before.map Token.normal
  part_ne_nil : part ≠ []
  part_isPrefix : part <+: a.chars
  part_ne : part ≠ a.chars
  drop_eq : text.toList.drop start = part

section Reading

variable {text : String} {ts : List Token} {m : Lexer}

theorem parse_of_reads_end (hreads : Reads (ofText text) ts m) (hts : Unfinished ts)
    (hend : m.next.1 = .ok none) : parse text = .error .unexpectedEnd := by
  rw [parse_eq_unexpectedEnd_iff, hreads.scan_eq, scan_of_end hend, List.append_nil]
  exact ⟨rfl, hts⟩

theorem parse_of_reads_error (hreads : Reads (ofText text) ts m) (hts : Unfinished ts)
    {cause : LexError} (herror : m.next.1 = .error cause) :
    parse text = .error (.lex cause) := by
  rw [parse_eq_lex_iff, hreads.scan_eq, scan_of_error herror, List.append_nil]
  exact ⟨rfl, Or.inl hts⟩

end Reading

section Layout

variable {e : Expr} {before behind : List Piece} {p : Piece}

/-- The tokens in front of a piece are read as the beginning of an expression. -/
theorem unfinished_of_pieces
    (htokens : (before ++ p :: behind).map Piece.token = e.tokens) :
    Unfinished (before.map fun q => q.token.normal) := by
  refine ⟨e.normal, (p :: behind).map fun q => q.token.normal, by simp, ?_⟩
  rw [tokens_normal, ← htokens, List.map_map, ← List.map_append]
  rfl

theorem ne_nil_of_atom {items : List Expr} {a : Atom}
    (htokens : (before ++ p :: behind).map Piece.token = (list items).tokens)
    (ha : p.token = .atom a) : before ≠ [] := by
  rintro rfl
  simp [tokens, ha] at htokens

/-- The tokens in front of a piece are read, and the text breaks off behind its blanks. -/
theorem endsInside_of_scan {a : Atom} {part : List Char} {text : String}
    (htokens : (before ++ p :: behind).map Piece.token = e.tokens) (ha : p.token = .atom a)
    (hscan : (ofText text).scan.1 = before.map fun q => q.token.normal)
    (hleft : text.toList = spread before ++ (p.blanks ++ part)) (hne : part ≠ [])
    (hpart : part <+: p.token.chars) (hproper : part ≠ p.token.chars) :
    EndsInside text e a part (0 + (spread before).length + p.blanks.length) where
  tokens := by
    refine ⟨before.map Piece.token, behind.map Piece.token, ?_, ?_⟩
    · rw [← htokens, List.map_append, List.map_cons, ha]
    · rw [hscan, List.map_map]
      rfl
  part_ne_nil := hne
  part_isPrefix := by rwa [ha] at hpart
  part_ne := by rwa [ha] at hproper
  drop_eq := by
    rw [hleft, ← List.append_assoc, Nat.zero_add, ← List.length_append, List.drop_left]

/-- A layout of a list that is cut short is never accepted. Its end comes too early, or
it is in the middle of an atom and what is left there gives an error. -/
theorem parse_of_isPrefix_spread {items : List Expr} {pieces : List Piece} {text : String}
    (he : (list items).SymbolsReadable) (htokens : pieces.map Piece.token = (list items).tokens)
    (hlayout : Layout pieces) (htext : text.toList <+: spread pieces)
    (hproper : text.toList ≠ spread pieces) :
    parse text = .error .unexpectedEnd ∨
      ∃ a part start, EndsInside text (list items) a part start ∧
        parse text = .error (.lex (a.cutError part start)) := by
  obtain ⟨before, p, behind, part, rfl, hleft, hpart, hne⟩ :=
    exists_cut_of_isPrefix_spread htext hproper
  have hreadable : ∀ q ∈ before ++ p :: behind, q.token.isReadable := fun q hq =>
    isReadable_of_mem_tokens he (htokens ▸ List.mem_map_of_mem hq)
  have hblanks := hlayout.blank p (by simp)
  have hunfinished := unfinished_of_pieces htokens
  have hreads := hlayout.reads_cut (fun q hq => hreadable q (List.mem_append_left _ hq)) hpart 0
  rw [← hleft, ← ofText] at hreads
  rcases Piece.cut_cases hpart hne with hblank | ⟨word, rfl, hword, hchars, hcut⟩
  · exact Or.inl (parse_of_reads_end hreads hunfinished
      (next_eq_none_iff.mpr fun c hc => hblanks c (hblank.subset hc)))
  obtain ⟨a, ha, houtcome⟩ := Token.next_cut (hreadable p (by simp)) hword hchars hcut
    (0 + (spread before).length + p.blanks.length)
  rw [← next_blanks _ word hblanks] at houtcome
  generalize hnext : next ⟨_, p.blanks ++ word⟩ = result at houtcome
  cases houtcome with
  | atom b m hrest =>
    have hbefore : before.map (fun q => q.token.normal) ≠ [] := by
      simpa using ne_nil_of_atom htokens ha
    exact Or.inl (parse_of_reads_end (hreads.append (Reads.single hnext))
      (hunfinished.append_atom hbefore b) (next_eq_none_iff.mpr (by simp [hrest])))
  | error m =>
    have herror := congrArg Prod.fst hnext
    have hscan : (ofText text).scan.1 = before.map fun q => q.token.normal := by
      rw [hreads.scan_eq, scan_of_error herror, List.append_nil]
    exact Or.inr ⟨a, word, _, endsInside_of_scan htokens ha hscan hleft hword hchars hcut,
      parse_of_reads_error hreads hunfinished herror⟩

end Layout

/-- Of the beginnings of a query only the whole is accepted. Any other ends too early, or it ends
in the middle of an atom and what is left of the atom gives an error. -/
theorem parse_of_isPrefix_render {items : List Expr} (text : String)
    (he : (list items).SymbolsReadable) (htext : text.toList <+: (list items).render.toList) :
    ((∃ e, parse text = .ok e) ↔ text = (list items).render) ∧
      (text ≠ (list items).render → parse text = .error .unexpectedEnd ∨
        ∃ a part start, EndsInside text (list items) a part start ∧
          parse text = .error (.lex (a.cutError part start))) := by
  have hspread : spread (pieces [] (list items)) = (list items).render.toList := by
    rw [spread_pieces, List.nil_append, render, String.toList_ofList]
  rw [← hspread] at htext
  have hcut (hproper : text ≠ (list items).render) :=
    parse_of_isPrefix_spread he (map_token_pieces _ []) (layout_pieces _ (by simp)) htext
      (by rwa [hspread, ne_eq, String.toList_inj])
  refine ⟨⟨?_, ?_⟩, hcut⟩
  · intro hok
    obtain ⟨e, hok⟩ := hok
    by_contra hproper
    rcases hcut hproper with hend | ⟨a, part, start, -, hlex⟩
    · simp [hok] at hend
    · simp [hok] at hlex
  · intro hwhole
    exact ⟨_, hwhole ▸ parse_render he⟩

/-- The query `(in "a(\"" (1.5e-7 NaN -7))`. -/
def nestedQuery : Expr :=
  list [symbol "in", text "a(\"", list [float (.ofDecimal false 15 (-8)), float .nan,
    integer (-7)]]

/-- Cuts behind a backslash, in an exponent, and in a word that stands for a float. -/
theorem parse_of_isPrefix_render_nested :
    (∃ a part, EndsInside "(in \"a(\\" nestedQuery a part 4 ∧
      parse "(in \"a(\\" = .error (.lex (.unterminatedText 4))) ∧
    (∃ a part, EndsInside "(in \"a(\\\"\" (1.5e-" nestedQuery a part 12 ∧
      parse "(in \"a(\\\"\" (1.5e-" = .error (.lex (.invalidNumber "1.5e-" 12))) ∧
    parse "(in \"a(\\\"\" (1.5e-7 Na" = .error .unexpectedEnd ∧
    ∃ e, parse nestedQuery.render = .ok e := by
  have he : nestedQuery.SymbolsReadable := by decide +kernel
  refine ⟨?_, ?_, ?_, (parse_of_isPrefix_render _ he List.prefix_rfl).1.mpr rfl⟩
  · have hscan : (ofText "(in \"a(\\").scan.2 = some (.unterminatedText 4) := by decide +kernel
    rcases (parse_of_isPrefix_render "(in \"a(\\" he (by decide +kernel)).2 (by decide +kernel)
      with hend | ⟨a, part, start, hinside, hparse⟩
    · simp [parse_eq_unexpectedEnd_iff, hscan] at hend
    · have hcause := hscan.symm.trans (parse_eq_lex_iff.mp hparse).1
      cases a <;> cases hcause
      exact ⟨_, _, hinside, hparse⟩
  · have hscan : (ofText "(in \"a(\\\"\" (1.5e-").scan.2 = some (.invalidNumber "1.5e-" 12) := by
      decide +kernel
    rcases (parse_of_isPrefix_render "(in \"a(\\\"\" (1.5e-" he (by decide +kernel)).2
      (by decide +kernel) with hend | ⟨a, part, start, hinside, hparse⟩
    · simp [parse_eq_unexpectedEnd_iff, hscan] at hend
    · have hcause := hscan.symm.trans (parse_eq_lex_iff.mp hparse).1
      obtain rfl : start = 12 := by
        cases a <;> simp_all [Atom.cutError]
      rw [← Option.some.inj hcause] at hparse
      exact ⟨_, _, hinside, hparse⟩
  · have hscan : (ofText "(in \"a(\\\"\" (1.5e-7 Na").scan.2 = none := by decide +kernel
    rcases (parse_of_isPrefix_render "(in \"a(\\\"\" (1.5e-7 Na" he (by decide +kernel)).2
      (by decide +kernel) with hend | ⟨a, part, start, -, hparse⟩
    · exact hend
    · simp [parse_eq_lex_iff, hscan] at hparse

end Expr

end RadarQuery
