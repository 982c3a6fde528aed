import RadarQuery.Token.Basic

/-!
The parts of an expression: its atoms and its lists at any depth. A statement
about all expressions is proved for atoms, and for a list from its elements.
-/

namespace RadarQuery.Expr

/-- Induction over the elements of lists. -/
@[elab_as_elim]
theorem induction {motive : Expr → Prop} (atom : ∀ a, motive (.atom a))
    (list : ∀ items, (∀ e ∈ items, motive e) → motive (.list items)) (e : Expr) : motive e :=
  @Expr.rec motive (fun items => ∀ e ∈ items, motive e) atom list
    (fun _ h => absurd h List.not_mem_nil)
    (fun _ _ hfirst hrest => List.forall_mem_cons.mpr ⟨hfirst, hrest⟩) e

mutual

def atoms : Expr → List Atom
  | atom a => [a]
  | list items => atomsOfItems items

def atomsOfItems : List Expr → List Atom
  | [] => []
  | e :: es => atoms e ++ atomsOfItems es

end

mutual

/-- The lists at any depth, each given by its elements; a list comes after those in it. -/
def lists : Expr → List (List Expr)
  | atom _ => []
  | list items => listsOfItems items ++ [items]

def listsOfItems : List Expr → List (List Expr)
  | [] => []
  | e :: es => lists e ++ listsOfItems es

end

def isLiteral : Expr → Bool
  | atom a => a.kind != .symbol
  | list _ => false

mutual

def mapAtoms (f : Atom → Atom) : Expr → Expr
  | atom a => atom (f a)
  | list items => list (mapItems f items)

def mapItems (f : Atom → Atom) : List Expr → List Expr
  | [] => []
  | e :: es => mapAtoms f e :: mapItems f es

end

theorem mem_atomsOfItems {a : Atom} {items : List Expr} :
    a ∈ atomsOfItems items ↔ ∃ e ∈ items, a ∈ e.atoms := by
  induction items with
  | nil => simp [atomsOfItems]
  | cons e es ih => simp [atomsOfItems, ih]

theorem mem_listsOfItems {l items : List Expr} :
    l ∈ listsOfItems items ↔ ∃ e ∈ items, l ∈ e.lists := by
  induction items with
  | nil => simp [listsOfItems]
  | cons e es ih => simp [listsOfItems, ih]

theorem mem_lists_self (items : List Expr) : items ∈ (list items).lists :=
  List.mem_append_right _ (List.mem_singleton_self items)

theorem mem_lists_of_mem {e : Expr} {l items : List Expr} (he : e ∈ items) (hl : l ∈ e.lists) :
    l ∈ (list items).lists :=
  List.mem_append_left _ (mem_listsOfItems.mpr ⟨e, he, hl⟩)

theorem forall_mem_lists_iff {P : List Expr → Prop} {items : List Expr} :
    (∀ l ∈ (list items).lists, P l) ↔ P items ∧ ∀ e ∈ items, ∀ l ∈ e.lists, P l := by
  constructor
  · intro h
    exact ⟨h items (mem_lists_self items), fun e he l hl => h l (mem_lists_of_mem he hl)⟩
  · intro h l hl
    rcases List.mem_append.mp hl with hinner | hself
    · obtain ⟨e, he, hl⟩ := mem_listsOfItems.mp hinner
      exact h.2 e he l hl
    · rw [List.mem_singleton.mp hself]
      exact h.1

theorem mapAtoms_eq_self_iff (f : Atom → Atom) (e : Expr) :
    e.mapAtoms f = e ↔ ∀ a ∈ e.atoms, f a = a := by
  induction e using Expr.induction with
  | atom a => simp [mapAtoms, atoms]
  | list items ih =>
    simp only [mapAtoms, atoms, list.injEq]
    induction items with
    | nil => simp [mapItems, atomsOfItems]
    | cons e es ihs =>
      obtain ⟨hfirst, hrest⟩ := List.forall_mem_cons.mp ih
      simp only [mapItems, atomsOfItems, List.cons.injEq, List.forall_mem_append, hfirst,
        ihs hrest]

theorem tokensOfItems_append (as bs : List Expr) :
    tokensOfItems (as ++ bs) = tokensOfItems as ++ tokensOfItems bs := by
  induction as with
  | nil => rfl
  | cons a as ih => simp [tokensOfItems, ih]

/-- The atoms are the tokens that are not parentheses. -/
theorem mem_atoms_iff {a : Atom} {e : Expr} : a ∈ e.atoms ↔ .atom a ∈ e.tokens := by
  induction e using Expr.induction with
  | atom b => simp [atoms, tokens]
  | list items ih =>
    have hitems : a ∈ atomsOfItems items ↔ .atom a ∈ tokensOfItems items := by
      induction items with
      | nil => simp [atomsOfItems, tokensOfItems]
      | cons e es ihs =>
        have hes := ihs fun e he => ih e (List.mem_cons_of_mem _ he)
        simp [atomsOfItems, tokensOfItems, ih e (List.mem_cons_self ..), hes]
    simp [atoms, tokens, hitems]

end RadarQuery.Expr
