import Mathlib.Data.List.Forall2
import RadarQuery.Operator.Comparison

/-!
What a glob pattern accepts. A text has the form of a pattern if it can be cut into
consecutive pieces, one for each character of the pattern, that these characters stand
for. The row that is kept for an end of the text says of each suffix of the pattern
whether that end has its form, so the first entry of the last row settles the whole text.

The comparison can also be told as a search. The regular expression of a pattern is tied
to both ends of the text; in between it has one item for each character: any run of
characters for a star, any one character, a line feed included, for a question mark, and
the character itself for every other. The texts in which it is found are those that can be
cut into pieces.
-/

namespace RadarQuery

namespace Text.Glob

def Fits (p : Char) (piece : List Char) : Prop :=
  if p = '*' then True else if p = '?' then ∃ c, piece = [c] else piece = [p]

/-- The text can be cut into pieces that the characters of the pattern stand for, in order. -/
def Splits (pattern text : List Char) : Prop :=
  ∃ pieces : List (List Char), List.Forall₂ Fits pattern pieces ∧ pieces.flatten = text

section Splits

variable {p c : Char} {ps cs text : List Char}

theorem fits_star (piece : List Char) : Fits '*' piece :=
  trivial

/-- Any character of a pattern but a star stands for single characters only. -/
theorem fits_iff_of_ne_star (hp : p ≠ '*') {piece : List Char} :
    Fits p piece ↔ ∃ c, piece = [c] ∧ (p = '?' ∨ p = c) := by
  unfold Fits
  rw [if_neg hp]
  split
  case isTrue hquestion => simp [hquestion]
  case isFalse hquestion => simp [hquestion]

theorem splits_nil_iff : Splits [] text ↔ text = [] := by
  constructor
  · rintro ⟨pieces, hpieces, rfl⟩
    cases hpieces
    rfl
  · rintro rfl
    exact ⟨[], .nil, rfl⟩

theorem splits_cons_iff :
    Splits (p :: ps) text ↔ ∃ piece rest, Fits p piece ∧ Splits ps rest ∧ piece ++ rest = text := by
  constructor
  · rintro ⟨pieces, hpieces, rfl⟩
    cases hpieces with
    | @cons _ piece _ pieces hfirst hothers =>
      exact ⟨piece, pieces.flatten, hfirst, ⟨pieces, hothers, rfl⟩, rfl⟩
  · rintro ⟨piece, rest, hfirst, ⟨pieces, hothers, rfl⟩, rfl⟩
    exact ⟨piece :: pieces, .cons hfirst hothers, rfl⟩

theorem splits_star_iff : Splits ('*' :: ps) text ↔ ∃ rest, rest <:+ text ∧ Splits ps rest := by
  rw [splits_cons_iff]
  constructor
  · rintro ⟨piece, rest, -, hrest, rfl⟩
    exact ⟨rest, List.suffix_append piece rest, hrest⟩
  · rintro ⟨rest, ⟨piece, rfl⟩, hrest⟩
    exact ⟨piece, rest, fits_star piece, hrest, rfl⟩

/-- A star takes the first character and goes on, or takes nothing more. -/
theorem splits_star_cons_iff :
    Splits ('*' :: ps) (c :: cs) ↔ Splits ('*' :: ps) cs ∨ Splits ps (c :: cs) := by
  simp only [splits_star_iff, List.suffix_cons_iff]
  constructor
  · rintro ⟨rest, rfl | hsuffix, hrest⟩
    · exact Or.inr hrest
    · exact Or.inl ⟨rest, hsuffix, hrest⟩
  · rintro (⟨rest, hsuffix, hrest⟩ | hrest)
    · exact ⟨rest, Or.inr hsuffix, hrest⟩
    · exact ⟨c :: cs, Or.inl rfl, hrest⟩

theorem splits_char_cons_iff (hp : p ≠ '*') :
    Splits (p :: ps) (c :: cs) ↔ (p = '?' ∨ p = c) ∧ Splits ps cs := by
  rw [splits_cons_iff]
  constructor
  · rintro ⟨piece, rest, hpiece, hrest, happend⟩
    obtain ⟨d, rfl, hd⟩ := (fits_iff_of_ne_star hp).mp hpiece
    obtain ⟨rfl, rfl⟩ := List.cons_eq_cons.mp happend
    exact ⟨hd, hrest⟩
  · rintro ⟨hc, hrest⟩
    exact ⟨[c], cs, (fits_iff_of_ne_star hp).mpr ⟨c, rfl, hc⟩, hrest, rfl⟩

/-- Nothing but stars stand for the empty text. -/
theorem splits_cons_empty_iff : Splits (p :: ps) [] ↔ p = '*' ∧ Splits ps [] := by
  by_cases hp : p = '*'
  · simp [hp, splits_star_iff]
  · rw [splits_cons_iff]
    constructor
    · rintro ⟨piece, rest, hpiece, -, happend⟩
      obtain ⟨d, rfl, -⟩ := (fits_iff_of_ne_star hp).mp hpiece
      simp at happend
    · rintro ⟨hstar, -⟩
      exact absurd hstar hp

end Splits

section Row

variable {pattern text : List Char} {row : List Bool}

/-- A row has an entry for each suffix of the pattern, the whole pattern first, that says
whether the text has the form of that suffix. -/
def Answers (pattern text : List Char) (row : List Bool) : Prop :=
  List.Forall₂ (fun suffix accepted => accepted = true ↔ Splits suffix text) pattern.tails row

theorem Answers.headD_iff (h : Answers pattern text row) :
    row.headD false = true ↔ Splits pattern text := by
  cases pattern <;> cases h <;> assumption

theorem answers_cons_iff {p : Char} {ps : List Char} {accepted : Bool} :
    Answers (p :: ps) text (accepted :: row) ↔
      (accepted = true ↔ Splits (p :: ps) text) ∧ Answers ps text row := by
  rw [Answers, List.tails, List.forall₂_cons, Answers]

theorem answers_emptyRow (pattern : List Char) : Answers pattern [] (emptyRow pattern) := by
  induction pattern with
  | nil => exact .cons (by simp [splits_nil_iff]) .nil
  | cons p ps ih =>
    refine answers_cons_iff.mpr ⟨?_, ih⟩
    rw [splits_cons_empty_iff, ← ih.headD_iff, Bool.and_eq_true, beq_iff_eq]

/-- One character of the text takes a row to the next. -/
theorem Answers.nextRow (h : Answers pattern text row) (c : Char) :
    Answers pattern (c :: text) (nextRow c pattern row) := by
  -- a star needs the new entry of the shorter suffix, so the rows are followed from the right
  induction pattern generalizing row with
  | nil => exact .cons (by simp [splits_nil_iff]) .nil
  | cons p ps ih =>
    cases h with
    | @cons _ accepted _ row haccepted hrow =>
      have hlater : Answers ps (c :: text) (Glob.nextRow c ps row) := ih hrow
      refine answers_cons_iff.mpr ⟨?_, hlater⟩
      by_cases hp : p = '*'
      · subst hp
        simp only [if_true, Bool.or_eq_true, haccepted, hlater.headD_iff, splits_star_cons_iff]
      · simp only [if_neg hp, Bool.and_eq_true, Bool.or_eq_true, beq_iff_eq,
          Answers.headD_iff hrow, splits_char_cons_iff hp]

theorem answers_foldr (pattern text : List Char) :
    Answers pattern text (text.foldr (Glob.nextRow · pattern) (emptyRow pattern)) := by
  induction text with
  | nil => exact answers_emptyRow pattern
  | cons c cs ih => exact ih.nextRow c

theorem accepts_iff_splits : accepts pattern text = true ↔ Splits pattern text :=
  (answers_foldr pattern text).headD_iff

end Row

section Search

inductive Item where
  | textStart
  | textEnd
  | any
  | anyRun
  | char (c : Char)

/-- Whether an item can take a piece that stands between two other parts of the text. -/
def Item.Takes (before piece after : List Char) : Item → Prop
  | textStart => piece = [] ∧ before = []
  | textEnd => piece = [] ∧ after = []
  | any => ∃ c, piece = [c]
  | anyRun => True
  | char c => piece = [c]

/-- The items take consecutive pieces, from behind `before` up to `after`. -/
inductive Takes : List Item → List Char → List Char → List Char → Prop
  | nil (before after : List Char) : Takes [] before [] after
  | cons {item : Item} {items : List Item} {before piece rest after : List Char} :
      item.Takes before piece (rest ++ after) → Takes items (before ++ piece) rest after →
      Takes (item :: items) before (piece ++ rest) after

def Found (items : List Item) (text : List Char) : Prop :=
  ∃ before part after, before ++ part ++ after = text ∧ Takes items before part after

def Item.ofChar (p : Char) : Item :=
  if p = '*' then .anyRun else if p = '?' then .any else .char p

def anchored (pattern : List Char) : List Item :=
  .textStart :: (pattern.map .ofChar ++ [.textEnd])

theorem Item.takes_ofChar_iff {p : Char} {before piece after : List Char} :
    (Item.ofChar p).Takes before piece after ↔ Fits p piece := by
  unfold Item.ofChar Fits
  split
  · rfl
  · split <;> rfl

/-- At an end of the text an item takes nothing. -/
theorem Takes.cons_empty {item : Item} {items : List Item} {before part after : List Char}
    (hitem : item.Takes before [] (part ++ after)) (hitems : Takes items before part after) :
    Takes (item :: items) before part after := by
  have hrest : Takes items (before ++ []) part after := by rwa [List.append_nil]
  exact .cons hitem hrest

/-- Up to the end of the text the items of a pattern take what has its form. -/
theorem takes_map_ofChar_iff {pattern before part after : List Char} :
    Takes (pattern.map .ofChar ++ [.textEnd]) before part after ↔
      Splits pattern part ∧ after = [] := by
  induction pattern generalizing before part with
  | nil =>
    constructor
    · rintro (_ | ⟨⟨rfl, hafter⟩, ⟨⟩⟩)
      exact ⟨splits_nil_iff.mpr rfl, by simpa using hafter⟩
    · rintro ⟨hpart, rfl⟩
      rw [splits_nil_iff.mp hpart]
      exact .cons_empty ⟨rfl, rfl⟩ (.nil before [])
  | cons p ps ih =>
    rw [splits_cons_iff]
    constructor
    · rintro (_ | ⟨hpiece, hrest⟩)
      obtain ⟨hsplits, hafter⟩ := ih.mp hrest
      exact ⟨⟨_, _, Item.takes_ofChar_iff.mp hpiece, hsplits, rfl⟩, hafter⟩
    · rintro ⟨⟨piece, rest, hpiece, hrest, rfl⟩, hafter⟩
      exact .cons (Item.takes_ofChar_iff.mpr hpiece) (ih.mpr ⟨hrest, hafter⟩)

/-- A search with the anchored regular expression of a pattern finds something in the texts
that the pattern accepts, and in no others. -/
theorem found_anchored_iff_accepts {pattern text : List Char} :
    Found (anchored pattern) text ↔ accepts pattern text = true := by
  rw [accepts_iff_splits]
  constructor
  · rintro ⟨before, part, after, rfl, _ | ⟨⟨rfl, rfl⟩, hitems⟩⟩
    obtain ⟨hsplits, rfl⟩ := takes_map_ofChar_iff.mp hitems
    simpa using hsplits
  · intro hsplits
    exact ⟨[], text, [], by simp,
      .cons_empty ⟨rfl, rfl⟩ (takes_map_ofChar_iff.mpr ⟨hsplits, rfl⟩)⟩

end Search

end Text.Glob

/-- Two texts always compare with an answer: whether the regular expression of the second,
tied to both ends, is found in the first. -/
theorem like_eq_ok_iff_found {value pattern : String} {holds : Bool} :
    like (.text value) (.text pattern) = .ok holds ↔
      (holds = true ↔ Text.Glob.Found (Text.Glob.anchored pattern.toList) value.toList) := by
  have hlike : like (.text value) (.text pattern) =
      .ok (Text.Glob.accepts pattern.toList value.toList) := rfl
  rw [hlike, Except.ok.injEq, Bool.eq_iff_iff, Text.Glob.found_anchored_iff_accepts]
  exact iff_comm

/-- A comparison with a pattern succeeds on two texts, and holds exactly if the first can be
cut into pieces that the characters of the second stand for. Anything else is a type error. -/
theorem like_iff_splits :
    (∀ value pattern : String, ∃ holds, like (.text value) (.text pattern) = .ok holds ∧
      (holds = true ↔ Text.Glob.Splits pattern.toList value.toList)) ∧
    ∀ a b : Expr, a.kind ≠ .text ∨ b.kind ≠ .text →
      like a b = .error (.typeError (.pattern a.kind b.kind)) := by
  constructor
  · intro value pattern
    exact ⟨_, rfl, Text.Glob.accepts_iff_splits⟩
  · intro a b hkind
    unfold like
    split
    case h_1 value pattern => simp [Expr.kind, Atom.kind] at hkind
    case h_2 => rfl

/-- The two stars share a text with a line feed in it, and the point is no wildcard. -/
theorem like_iff_splits_line_feed :
    like (.text "x\n.y.") (.text "?*.*") = .ok true ∧
    like (.text "xy") (.text "x.") = .ok false ∧
    like (.text "x") (.integer 1) = .error (.typeError (.pattern .text .integer)) := by
  refine ⟨?_, ?_, like_iff_splits.2 (.text "x") (.integer 1) (Or.inr (by decide))⟩
  · obtain ⟨holds, hlike, hsplits⟩ := like_iff_splits.1 "x\n.y." "?*.*"
    have hcut : Text.Glob.Splits "?*.*".toList "x\n.y.".toList :=
      ⟨[['x'], ['\n'], ['.'], ['y', '.']], by simp [Text.Glob.Fits], rfl⟩
    rw [hlike, hsplits.mpr hcut]
  · rfl

end RadarQuery
