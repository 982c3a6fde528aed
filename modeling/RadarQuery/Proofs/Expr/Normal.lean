import RadarQuery.Proofs.Expr.Structure
import RadarQuery.Proofs.Token.Layout

/-!
Normal forms. An expression can be written and read back if its symbols have names that can
be read. The special values of floats are written as words, so that they come back as
symbols; the normal form has these symbols in their places. It is written alike, and it is
the expression itself if all floats are numbers.
-/

namespace RadarQuery

namespace Atom

theorem normal_eq_self_iff (a : Atom) : a.normal = a ↔ a.isFinite := by
  cases a with
  | float x =>
    cases x with
    | nan => simp [normal, isFinite, Double.isFinite]
    | infinity negative => cases negative <;> simp [normal, isFinite, Double.isFinite]
    | finite negative size => simp [normal, isFinite, Double.isFinite]
  | _ => simp [normal, isFinite]

/-- The special values are turned into symbols that are written alike. -/
theorem chars_normal (a : Atom) : a.normal.chars = a.chars := by
  cases a with
  | float x =>
    cases x with
    | nan => rfl
    | infinity negative => cases negative <;> rfl
    | finite negative size => rfl
  | _ => rfl

end Atom

namespace Expr

def SymbolsReadable (e : Expr) : Prop :=
  ∀ a ∈ e.atoms, a.isReadable

def FloatsFinite (e : Expr) : Prop :=
  ∀ a ∈ e.atoms, a.isFinite

instance (e : Expr) : Decidable e.SymbolsReadable :=
  inferInstanceAs (Decidable (∀ a ∈ e.atoms, a.isReadable))

instance (e : Expr) : Decidable e.FloatsFinite :=
  inferInstanceAs (Decidable (∀ a ∈ e.atoms, a.isFinite))

/-- The expression with its special floats turned into symbols. -/
def normal (e : Expr) : Expr :=
  e.mapAtoms Atom.normal

theorem charsAfter_mapItems {f : Atom → Atom} {es : List Expr}
    (hes : ∀ e ∈ es, (e.mapAtoms f).chars = e.chars) :
    charsAfter (mapItems f es) = charsAfter es := by
  induction es with
  | nil => rfl
  | cons e es ih =>
    obtain ⟨hfirst, hrest⟩ := List.forall_mem_cons.mp hes
    simp only [mapItems, charsAfter, hfirst, ih hrest]

/-- Atoms may be replaced by others that are written alike. -/
theorem chars_mapAtoms {f : Atom → Atom} (hf : ∀ a, (f a).chars = a.chars) (e : Expr) :
    (e.mapAtoms f).chars = e.chars := by
  induction e using Expr.induction with
  | atom a => exact hf a
  | list items ih =>
    cases items with
    | nil => rfl
    | cons first others =>
      obtain ⟨hfirst, hothers⟩ := List.forall_mem_cons.mp ih
      simp only [mapAtoms, mapItems, chars, hfirst, charsAfter_mapItems hothers]

theorem normal_eq_self_iff (e : Expr) : e.normal = e ↔ e.FloatsFinite := by
  simp only [normal, mapAtoms_eq_self_iff, Atom.normal_eq_self_iff, FloatsFinite]

theorem render_normal (e : Expr) : e.normal.render = e.render :=
  congrArg String.ofList (chars_mapAtoms Atom.chars_normal e)

theorem isReadable_of_mem_tokens {e : Expr} (he : e.SymbolsReadable) {t : Token}
    (ht : t ∈ e.tokens) : t.isReadable := by
  cases t with
  | atom a => exact he a (mem_atoms_iff.mpr ht)
  | _ => rfl

theorem tokensOfItems_mapItems {es : List Expr}
    (hes : ∀ e ∈ es, e.normal.tokens = e.tokens.map Token.normal) :
    tokensOfItems (mapItems Atom.normal es) = (tokensOfItems es).map Token.normal := by
  induction es with
  | nil => rfl
  | cons e es ih =>
    obtain ⟨hfirst, hrest⟩ := List.forall_mem_cons.mp hes
    rw [mapItems, tokensOfItems, tokensOfItems, List.map_append, ih hrest, ← hfirst, normal]

/-- The tokens of the normal form are read where those of the expression are written. -/
theorem tokens_normal (e : Expr) : e.normal.tokens = e.tokens.map Token.normal := by
  induction e using Expr.induction with
  | atom a => rfl
  | list items ih =>
    rw [normal, mapAtoms, tokens, tokens, tokensOfItems_mapItems ih, List.map_cons,
      List.map_append]
    rfl

end Expr

end RadarQuery
