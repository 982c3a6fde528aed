import RadarQuery.Expr.Equality
import RadarQuery.Proofs.Double.Order
import RadarQuery.Proofs.Expr.Structure

/-!
Equality of expressions. Structural equality is an equivalence among the expressions without
undefined numbers. Value equality adds to it that an integer and a float may be equal; it is
symmetric as well, and an undefined number is all that keeps a value from being equal to
itself.
-/

namespace RadarQuery

namespace Atom

variable {a b c : Atom}

theorem same_self_iff : a.same a ↔ a ≠ .float .nan := by
  cases a with
  | float x => simp [same, Double.equals_self_iff]
  | _ => simp [same]

theorem same_comm (a b : Atom) : a.same b = b.same a := by
  cases a with
  | float x =>
    cases b with
    | float y => exact Double.equals_comm x y
    | _ => rfl
  | _ => cases b <;> first | rfl | exact Bool.beq_comm

theorem same_trans (hab : a.same b) (hbc : b.same c) : a.same c := by
  cases a with
  | float x =>
    cases b with
    | float y =>
      cases c with
      | float z => exact Double.equals_trans hab hbc
      | _ => cases hbc
    | _ => cases hab
  | _ => cases b <;> simp_all [same]

end Atom

namespace Expr

variable {a b c : Expr}

def FloatsDefined (e : Expr) : Prop :=
  Atom.float .nan ∉ e.atoms

instance (e : Expr) : Decidable e.FloatsDefined :=
  inferInstanceAs (Decidable (_ ∉ _))

section Structural

/-- Atoms that are changed are compared with those in their places. -/
theorem same_mapAtoms_iff (f : Atom → Atom) (e : Expr) :
    (e.mapAtoms f).same e ↔ ∀ a ∈ e.atoms, (f a).same a := by
  induction e using Expr.induction with
  | atom a => simp [mapAtoms, same, atoms]
  | list items ih =>
    simp only [mapAtoms, same, atoms]
    induction items with
    | nil => simp [mapItems, sameItems, atomsOfItems]
    | cons e es ihs =>
      obtain ⟨hfirst, hrest⟩ := List.forall_mem_cons.mp ih
      simp only [mapItems, sameItems, atomsOfItems, Bool.and_eq_true, List.forall_mem_append,
        hfirst, ihs hrest]

theorem same_self_iff : a.same a ↔ a.FloatsDefined := by
  have hid : a.mapAtoms id = a := (mapAtoms_eq_self_iff id a).mpr fun _ _ => rfl
  have hatoms := same_mapAtoms_iff id a
  simp only [hid, id, Atom.same_self_iff] at hatoms
  rw [hatoms, FloatsDefined]
  exact ⟨fun h hmem => h _ hmem rfl, fun h b hb hnan => h (hnan ▸ hb)⟩

theorem sameItems_comm {as : List Expr} (h : ∀ a ∈ as, ∀ b, a.same b = b.same a)
    (bs : List Expr) : sameItems as bs = sameItems bs as := by
  induction as generalizing bs with
  | nil => cases bs <;> rfl
  | cons a as ih =>
    obtain ⟨hfirst, hrest⟩ := List.forall_mem_cons.mp h
    cases bs with
    | nil => rfl
    | cons b bs => simp only [sameItems, hfirst, ih hrest]

theorem same_comm (a b : Expr) : a.same b = b.same a := by
  induction a using Expr.induction generalizing b with
  | atom a =>
    cases b with
    | atom b => exact Atom.same_comm a b
    | list items => rfl
  | list items ih =>
    cases b with
    | atom b => rfl
    | list others => exact sameItems_comm ih others

theorem sameItems_trans {as bs cs : List Expr}
    (h : ∀ a ∈ as, ∀ b c : Expr, a.same b → b.same c → a.same c)
    (hab : sameItems as bs) (hbc : sameItems bs cs) : sameItems as cs := by
  induction as generalizing bs cs with
  | nil =>
    cases bs with
    | nil => exact hbc
    | cons b bs => cases hab
  | cons a as ih =>
    obtain ⟨hfirst, hrest⟩ := List.forall_mem_cons.mp h
    cases bs with
    | nil => cases hab
    | cons b bs =>
      cases cs with
      | nil => cases hbc
      | cons c cs =>
        simp only [sameItems, Bool.and_eq_true] at hab hbc ⊢
        exact ⟨hfirst b c hab.1 hbc.1, ih hrest hab.2 hbc.2⟩

theorem same_trans (hab : a.same b) (hbc : b.same c) : a.same c := by
  induction a using Expr.induction generalizing b c with
  | atom a =>
    cases b with
    | atom b =>
      cases c with
      | atom c => exact Atom.same_trans hab hbc
      | list items => cases hbc
    | list items => cases hab
  | list items ih =>
    cases b with
    | atom b => cases hab
    | list others =>
      cases c with
      | atom c => cases hbc
      | list rest => exact sameItems_trans (fun a ha b c => ih a ha) hab hbc

end Structural

section Value

/-- Value equality is structural except between an integer and a float. -/
theorem equals_eq_same
    (h : ∀ n x, ¬(a = integer n ∧ b = float x) ∧ ¬(a = float x ∧ b = integer n)) :
    a.equals b = a.same b := by
  unfold equals
  split
  · exact absurd ⟨rfl, rfl⟩ (h _ _).1
  · exact absurd ⟨rfl, rfl⟩ (h _ _).2
  · rfl

theorem equals_self_iff : a.equals a ↔ a.FloatsDefined := by
  rw [equals_eq_same, same_self_iff]
  intro n x
  constructor
  · rintro ⟨rfl, h⟩
    cases h
  · rintro ⟨rfl, h⟩
    cases h

theorem equals_comm (a b : Expr) : a.equals b = b.equals a := by
  unfold equals
  split
  · rfl
  · rfl
  · next hab hba =>
    split
    · exact absurd rfl (hba _ _ rfl)
    · exact absurd rfl (hab _ _ rfl)
    · exact same_comm a b

end Value

end Expr

end RadarQuery
