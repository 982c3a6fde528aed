import Mathlib.Data.List.Chain
import RadarQuery.Proofs.Token.Spelling

/-!
Layouts. A text is laid out as its tokens in order, each with a run of blanks in front of it
that may be empty. Only between two words there have to be blanks, since a word goes on up to
the next delimiter; parentheses and quotes are delimiters themselves. However the blanks are
chosen, successive calls give the tokens. A layout that is cut short ends inside one of its
pieces, and the calls give the tokens in front of that piece.
-/

namespace RadarQuery

open Lexer

namespace Token

def chars : Token → List Char
  | opening => ['(']
  | closing => [')']
  | atom a => a.chars

def isWord : Token → Bool
  | atom a => a.kind != .text
  | _ => false

def isReadable : Token → Bool
  | atom a => a.isReadable
  | _ => true

def normal : Token → Token
  | atom a => atom a.normal
  | t => t

theorem next_chars {t : Token} (ht : t.isReadable) (position : ℕ) {rest : List Char}
    (hrest : t.isWord → rest.head?.any (!isDelimiter ·) = false) :
    next ⟨position, t.chars ++ rest⟩ =
      (.ok (some t.normal), ⟨position + t.chars.length, rest⟩) := by
  cases t with
  | opening => exact next_opening position rest
  | closing => exact next_closing position rest
  | atom a => exact Atom.next_chars ht position fun hkind => hrest (by simpa [isWord] using hkind)

/-- What is not written bare begins with a delimiter. -/
theorem exists_delimiter_of_not_isWord {t : Token} (ht : ¬t.isWord) :
    ∃ c cs, t.chars = c :: cs ∧ isDelimiter c := by
  cases t with
  | opening => exact ⟨'(', [], rfl, rfl⟩
  | closing => exact ⟨')', [], rfl, rfl⟩
  | atom a =>
    cases a with
    | text s => exact ⟨'"', _, rfl, rfl⟩
    | _ => exact absurd rfl ht

end Token

/-- A run of characters that is cut short is cut in its first part or behind it. -/
theorem cut_append {cs as bs : List Char} (h : cs <+: as ++ bs) (hproper : cs ≠ as ++ bs) :
    (cs <+: as ∧ cs ≠ as) ∨ ∃ ds, cs = as ++ ds ∧ ds <+: bs ∧ ds ≠ bs := by
  by_cases hfirst : as <+: cs
  · obtain ⟨ds, rfl⟩ := hfirst
    have hds : ds <+: bs := (List.prefix_append_right_inj _).mp h
    exact Or.inr ⟨ds, rfl, hds, fun heq => hproper (congrArg _ heq)⟩
  · have hcs := (List.prefix_or_prefix_of_prefix h (List.prefix_append _ _)).resolve_right hfirst
    exact Or.inl ⟨hcs, fun heq => hfirst (heq ▸ List.prefix_rfl)⟩

structure Piece where
  blanks : List Char
  token : Token

namespace Piece

def chars (p : Piece) : List Char :=
  p.blanks ++ p.token.chars

/-- There are blanks between two words. -/
def Apart (p q : Piece) : Prop :=
  p.token.isWord → q.token.isWord → q.blanks ≠ []

instance (p q : Piece) : Decidable (p.Apart q) :=
  inferInstanceAs (Decidable (_ → _ → _))

/-- A word ends where the next piece begins. -/
theorem Apart.exists_delimiter {p q : Piece} (h : p.Apart q) (hp : p.token.isWord)
    (hblanks : ∀ c ∈ q.blanks, Text.isBlank c) : ∃ c cs, q.chars = c :: cs ∧ isDelimiter c := by
  cases hq : q.blanks with
  | nil =>
    have hword : ¬q.token.isWord := fun hword => h hp hword hq
    obtain ⟨c, cs, hchars, hc⟩ := Token.exists_delimiter_of_not_isWord hword
    exact ⟨c, cs, by rw [chars, hq, hchars, List.nil_append], hc⟩
  | cons c cs =>
    have hc : Text.isBlank c := hblanks c (by rw [hq]; exact List.mem_cons_self ..)
    exact ⟨c, cs ++ q.token.chars, by rw [chars, hq, List.cons_append], by simp [isDelimiter, hc]⟩

/-- A piece that is cut short has nothing but blanks left, or some characters of its token. -/
theorem cut_cases {p : Piece} {part : List Char} (hpart : part <+: p.chars) (hne : part ≠ p.chars) :
    part <+: p.blanks ∨ ∃ word, part = p.blanks ++ word ∧ word ≠ [] ∧ word <+: p.token.chars ∧
      word ≠ p.token.chars := by
  rcases cut_append hpart hne with ⟨hblanks, -⟩ | ⟨word, rfl, hword, hproper⟩
  · exact Or.inl hblanks
  · by_cases hnil : word = []
    · exact Or.inl (by simp [hnil])
    · exact Or.inr ⟨word, rfl, hnil, hword, hproper⟩

end Piece

/-- Pieces that keep their tokens apart. -/
structure Layout (pieces : List Piece) : Prop where
  blank : ∀ p ∈ pieces, ∀ c ∈ p.blanks, Text.isBlank c
  apart : pieces.IsChain Piece.Apart

theorem layout_iff {pieces : List Piece} : Layout pieces ↔
    pieces.all (fun p => p.blanks.all Text.isBlank) ∧ pieces.IsChain Piece.Apart := by
  simp only [List.all_eq_true]
  exact ⟨fun h => ⟨h.blank, h.apart⟩, fun h => ⟨h.1, h.2⟩⟩

instance (pieces : List Piece) : Decidable (Layout pieces) :=
  decidable_of_iff _ layout_iff.symm

def spread (pieces : List Piece) : List Char :=
  pieces.flatMap Piece.chars

theorem spread_cons (p : Piece) (ps : List Piece) : spread (p :: ps) = p.chars ++ spread ps :=
  List.flatMap_cons

theorem spread_append (ps qs : List Piece) : spread (ps ++ qs) = spread ps ++ spread qs :=
  List.flatMap_append

/-- A layout that is cut short ends inside one of its pieces. -/
theorem exists_cut_of_isPrefix_spread {pieces : List Piece} {left : List Char}
    (h : left <+: spread pieces) (hproper : left ≠ spread pieces) :
    ∃ before p behind part, pieces = before ++ p :: behind ∧ left = spread before ++ part ∧
      part <+: p.chars ∧ part ≠ p.chars := by
  induction pieces generalizing left with
  | nil => exact absurd (List.prefix_nil.mp h) hproper
  | cons p ps ih =>
    rw [spread_cons] at h hproper
    rcases cut_append h hproper with ⟨hpart, hne⟩ | ⟨left, rfl, hleft, hne⟩
    · exact ⟨[], p, ps, left, rfl, rfl, hpart, hne⟩
    · obtain ⟨before, q, behind, part, rfl, rfl, hpart, hne⟩ := ih hleft hne
      refine ⟨p :: before, q, behind, part, rfl, ?_, hpart, hne⟩
      rw [spread_cons, List.append_assoc]

namespace Layout

variable {pieces : List Piece} {p : Piece}

theorem nil : Layout [] :=
  ⟨List.forall_mem_nil _, List.IsChain.nil⟩

theorem single (hblanks : ∀ c ∈ p.blanks, Text.isBlank c) : Layout [p] :=
  ⟨List.forall_mem_singleton.mpr hblanks, List.IsChain.singleton p⟩

theorem append {ps qs : List Piece} (hps : Layout ps) (hqs : Layout qs)
    (h : ∀ p ∈ ps.getLast?, ∀ q ∈ qs.head?, p.Apart q) : Layout (ps ++ qs) :=
  ⟨List.forall_mem_append.mpr ⟨hps.blank, hqs.blank⟩,
    List.isChain_append.mpr ⟨hps.apart, hqs.apart, h⟩⟩

theorem of_cons (h : Layout (p :: pieces)) : Layout pieces :=
  ⟨fun q hq => h.blank q (List.mem_cons_of_mem _ hq), h.apart.of_cons⟩

theorem of_append_left {ps qs : List Piece} (h : Layout (ps ++ qs)) : Layout ps :=
  ⟨fun p hp => h.blank p (List.mem_append_left _ hp), (List.isChain_append.mp h.apart).1⟩

/-- Calls on a layout give its tokens in order. What is left over is what stands behind it,
if the last token ends there. -/
theorem reads_spread (h : Layout pieces) (hreadable : ∀ p ∈ pieces, p.token.isReadable)
    {rest : List Char} (hrest : ∀ p ∈ pieces.getLast?, p.token.isWord →
      rest.head?.any (!isDelimiter ·) = false) (position : ℕ) :
    Reads ⟨position, spread pieces ++ rest⟩ (pieces.map fun p => p.token.normal)
      ⟨position + (spread pieces).length, rest⟩ := by
  induction pieces generalizing position with
  | nil => exact Reads.nil _
  | cons p ps ih =>
    obtain ⟨hp, hps⟩ := List.forall_mem_cons.mp hreadable
    have hended : p.token.isWord → (spread ps ++ rest).head?.any (!isDelimiter ·) = false := by
      intro hword
      cases ps with
      | nil => exact hrest p rfl hword
      | cons q qs =>
        obtain ⟨c, cs, hchars, hc⟩ := (List.isChain_cons_cons.mp h.apart).1.exists_delimiter hword
          (h.blank q (by simp))
        simp [spread_cons, hchars, hc]
    have hnext : next ⟨position, spread (p :: ps) ++ rest⟩ =
        (.ok (some p.token.normal), ⟨position + p.chars.length, spread ps ++ rest⟩) := by
      rw [spread_cons, Piece.chars, List.append_assoc, List.append_assoc,
        next_blanks _ _ (h.blank p (List.mem_cons_self ..)), Token.next_chars hp _ hended,
        List.length_append, Nat.add_assoc]
    have hlast : ∀ q ∈ ps.getLast?, q.token.isWord →
        rest.head?.any (!isDelimiter ·) = false := by
      intro q hq
      exact hrest q (by simp [List.getLast?_cons, Option.mem_def.mp hq])
    have hreads := ih h.of_cons hps hlast (position + p.chars.length)
    rw [Nat.add_assoc, ← List.length_append, ← spread_cons] at hreads
    exact Reads.cons hnext hreads

/-- What is cut off inside a piece does not change how the pieces in front of it are read. -/
theorem reads_cut {before behind : List Piece} {part : List Char}
    (h : Layout (before ++ p :: behind)) (hreadable : ∀ q ∈ before, q.token.isReadable)
    (hpart : part <+: p.chars) (position : ℕ) :
    Reads ⟨position, spread before ++ part⟩ (before.map fun q => q.token.normal)
      ⟨position + (spread before).length, part⟩ := by
  refine h.of_append_left.reads_spread hreadable ?_ position
  intro q hq hword
  have hapart : q.Apart p := (List.isChain_append.mp h.apart).2.2 q hq p rfl
  obtain ⟨c, cs, hchars, hc⟩ := hapart.exists_delimiter hword (h.blank p (by simp))
  rw [hchars] at hpart
  rcases List.prefix_cons_iff.mp hpart with rfl | ⟨others, rfl, -⟩
  · rfl
  · simp [hc]

end Layout

end RadarQuery
