import RadarQuery.Operator.Comparison
import RadarQuery.Proofs.Expr.Equality
import RadarQuery.Proofs.Operator.Exactness

/-!
The six comparisons of two values. Equality and order are decided by different rules, and an
integer is widened in both where it meets a float. They fit together: two values that can be
ordered are equal if and only if neither is before the other, undefined numbers apart, and
from the other side they compare in reverse.
-/

namespace RadarQuery

namespace Expr

def Comparable (a b : Expr) : Prop :=
  a.IsNumber ∧ b.IsNumber ∨ a.kind = .text ∧ b.kind = .text ∨ a.kind = .boolean ∧ b.kind = .boolean

def IsUndefined (e : Expr) : Prop :=
  e = .float .nan

@[simp] theorem kind_boolean (b : Bool) : (Expr.boolean b).kind = .boolean := rfl

@[simp] theorem not_isUndefined_integer (n : Int64) : ¬(Expr.integer n).IsUndefined := by
  simp [IsUndefined]

@[simp] theorem isUndefined_float {x : Double} : (Expr.float x).IsUndefined ↔ x = .nan := by
  simp [IsUndefined]

theorem kind_eq_boolean_iff {e : Expr} : e.kind = .boolean ↔ ∃ b, e = .boolean b := by
  cases e with
  | list items => simp [kind]
  | atom a => cases a <;> simp [kind, Atom.kind]

end Expr

open RadarQuery.Expr

section Order

theorem textOrder_eq_iff {s t : String} : textOrder s t = .eq ↔ s = t := by
  unfold textOrder
  split
  case isTrue hlt =>
    simp only [reduceCtorEq, false_iff]
    rintro rfl
    exact String.lt_irrefl s hlt
  case isFalse => split <;> simp_all

theorem textOrder_swap (s t : String) : textOrder t s = (textOrder s t).swap := by
  unfold textOrder
  by_cases hst : s < t
  · have hts : ¬t < s := String.lt_asymm hst
    have hne : t ≠ s := fun heq => String.lt_irrefl s (heq ▸ hst)
    simp [hst, hts, hne]
  · by_cases hts : t < s
    · have hne : s ≠ t := fun heq => hst (heq ▸ hts)
      simp [hst, hts, hne]
    · obtain rfl : s = t := String.le_antisymm hts hst
      rw [if_neg hst, if_pos rfl]
      rfl

/-- How two values compare that can be ordered, seen from both sides, and what this says of
their equality. -/
structure Compares (a b : Expr) (o : Option Ordering) : Prop where
  ordering_eq : ordering a b = .ok o
  ordering_swap : ordering b a = .ok (o.map Ordering.swap)
  equals_eq : a.equals b = (o == some .eq)
  eq_none_iff : o = none ↔ a.IsUndefined ∨ b.IsUndefined

theorem compares_integers (m n : Int64) :
    Compares (.integer m) (.integer n) (some (compare m.toInt n.toInt)) where
  ordering_eq := rfl
  ordering_swap := congrArg (fun o => Except.ok (some o)) Std.OrientedCmp.eq_swap
  equals_eq := by
    have heq : (Expr.integer m).equals (.integer n) = (m == n) := rfl
    rw [heq, Bool.eq_iff_iff]
    simp [Int64.toInt_inj]
  eq_none_iff := by simp

theorem compares_floats (x y : Double) : Compares (.float x) (.float y) (x.order y) where
  ordering_eq := rfl
  ordering_swap := congrArg Except.ok (Double.order_swap x y)
  equals_eq := rfl
  eq_none_iff := by simp [Double.order_eq_none_iff]

/-- An integer compares with a float as the double that it is widened to. -/
theorem compares_integer_float (n : Int64) (y : Double) :
    Compares (.integer n) (.float y) ((Double.ofInt n.toInt).order y) where
  ordering_eq := rfl
  ordering_swap := congrArg Except.ok (Double.order_swap _ y)
  equals_eq := rfl
  eq_none_iff := by simp [Double.order_eq_none_iff, Double.ofInt_ne_nan]

theorem compares_texts (s t : String) :
    Compares (.text s) (.text t) (some (textOrder s t)) where
  ordering_eq := rfl
  ordering_swap := congrArg (fun o => Except.ok (some o)) (textOrder_swap s t)
  equals_eq := by
    have heq : (Expr.text s).equals (.text t) = (s == t) := rfl
    rw [heq, Bool.eq_iff_iff]
    simp [textOrder_eq_iff]
  eq_none_iff := by simp [IsUndefined]

theorem compares_booleans (a b : Bool) :
    Compares (.boolean a) (.boolean b) (some (compare a b)) where
  ordering_eq := rfl
  ordering_swap := congrArg (fun o => Except.ok (some o)) Std.OrientedCmp.eq_swap
  equals_eq := by cases a <;> cases b <;> rfl
  eq_none_iff := by simp [IsUndefined]

variable {a b : Expr} {o : Option Ordering}

theorem Compares.symm (h : Compares a b o) : Compares b a (o.map Ordering.swap) where
  ordering_eq := h.ordering_swap
  ordering_swap := by
    rw [h.ordering_eq, Option.map_map]
    cases o <;> simp
  equals_eq := by
    rw [equals_comm, h.equals_eq]
    cases o with
    | none => rfl
    | some order => cases order <;> rfl
  eq_none_iff := by rw [Option.map_eq_none_iff, h.eq_none_iff, or_comm]

/-- Values of one sort always compare. -/
theorem exists_compares (h : a.Comparable b) : ∃ o, Compares a b o := by
  rcases h with ⟨ha, hb⟩ | ⟨ha, hb⟩ | ⟨ha, hb⟩
  · rcases isNumber_iff.mp ha with ⟨m, rfl⟩ | ⟨x, rfl⟩
    · rcases isNumber_iff.mp hb with ⟨n, rfl⟩ | ⟨y, rfl⟩
      · exact ⟨_, compares_integers m n⟩
      · exact ⟨_, compares_integer_float m y⟩
    · rcases isNumber_iff.mp hb with ⟨n, rfl⟩ | ⟨y, rfl⟩
      · exact ⟨_, (compares_integer_float n x).symm⟩
      · exact ⟨_, compares_floats x y⟩
  · obtain ⟨s, rfl⟩ := kind_eq_text_iff.mp ha
    obtain ⟨t, rfl⟩ := kind_eq_text_iff.mp hb
    exact ⟨_, compares_texts s t⟩
  · obtain ⟨p, rfl⟩ := kind_eq_boolean_iff.mp ha
    obtain ⟨q, rfl⟩ := kind_eq_boolean_iff.mp hb
    exact ⟨_, compares_booleans p q⟩

theorem ordering_eq_error (h : ¬a.Comparable b) :
    ordering a b = .error (.typeError (.comparison a.kind b.kind)) := by
  unfold ordering
  split
  case h_7 => rfl
  all_goals exact absurd h (by simp [Comparable])

end Order

namespace Comparison

variable {a b : Expr} {o : Option Ordering} {c : Comparison}

def orders : List Comparison :=
  [lt, le, gt, ge]

theorem apply_of_mem_orders (hc : c ∈ orders) (a b : Expr) :
    c.apply a b = (ordering a b).map fun o => o.any c.admits := by
  simp only [orders, List.mem_cons, List.not_mem_nil, or_false] at hc
  rcases hc with rfl | rfl | rfl | rfl <;> rfl

theorem apply_eq_error (hc : c ∈ orders) (h : ¬a.Comparable b) :
    c.apply a b = .error (.typeError (.comparison a.kind b.kind)) := by
  rw [apply_of_mem_orders hc, ordering_eq_error h]
  rfl

/-- A comparison looks at nothing but how the values compare. -/
theorem apply_of_compares (h : Compares a b o) (hc : c ≠ ne) :
    c.apply a b = .ok (o.any c.admits) := by
  have horder : c ∈ orders → c.apply a b = .ok (o.any c.admits) := by
    intro hmem
    rw [apply_of_mem_orders hmem, h.ordering_eq]
    rfl
  cases c with
  | eq =>
    have heq : eq.apply a b = .ok (a.equals b) := rfl
    rw [heq, h.equals_eq]
    cases o with
    | none => rfl
    | some order => rfl
  | ne => exact absurd rfl hc
  | _ => exact horder (by decide)

/-- Two texts are compared by their order, and every comparison of them is decided. -/
theorem apply_texts (c : Comparison) (s t : String) :
    c.apply (.text s) (.text t) = .ok (c.admits (textOrder s t)) := by
  by_cases hc : c = ne
  · have hne : ne.apply (.text s) (.text t) = .ok !((Expr.text s).equals (.text t)) := rfl
    rw [hc, hne, (compares_texts s t).equals_eq]
    rfl
  · exact apply_of_compares (compares_texts s t) hc

/-- From the other side the strict comparisons change places, and so do the others. -/
theorem apply_swap (h : Compares a b o) :
    lt.apply a b = gt.apply b a ∧ le.apply a b = ge.apply b a := by
  rw [apply_of_compares h (by decide), apply_of_compares h (by decide),
    apply_of_compares h.symm (by decide), apply_of_compares h.symm (by decide)]
  cases o with
  | none => exact ⟨rfl, rfl⟩
  | some order => cases order <;> exact ⟨rfl, rfl⟩

theorem exists_apply_or (h : Compares a b o) :
    ∃ l e g, lt.apply a b = .ok l ∧ eq.apply a b = .ok e ∧ gt.apply a b = .ok g ∧
      le.apply a b = .ok (l || e) ∧ ge.apply a b = .ok (g || e) := by
  refine ⟨_, _, _, apply_of_compares h (by decide), apply_of_compares h (by decide),
    apply_of_compares h (by decide), ?_⟩
  rw [apply_of_compares h (by decide), apply_of_compares h (by decide)]
  cases o with
  | none => exact ⟨rfl, rfl⟩
  | some order => cases order <;> exact ⟨rfl, rfl⟩

def ofOrdering : Ordering → Comparison
  | .lt => lt
  | .eq => eq
  | .gt => gt

theorem admits_iff {order : Ordering} (hc : c ∈ [lt, eq, gt]) :
    c.admits order ↔ c = ofOrdering order := by
  simp only [List.mem_cons, List.not_mem_nil, or_false] at hc
  rcases hc with rfl | rfl | rfl <;> cases order <;> decide

theorem existsUnique_apply {order : Ordering} (h : Compares a b (some order)) :
    ∃! c, c ∈ [lt, eq, gt] ∧ c.apply a b = .ok true := by
  have happly : ∀ c ∈ [lt, eq, gt], c.apply a b = .ok true ↔ c = ofOrdering order := by
    intro c hc
    have hne : c ≠ ne := by
      rintro rfl
      exact absurd hc (by decide)
    rw [apply_of_compares h hne, Option.any_some, Except.ok.injEq, admits_iff hc]
  have hmem : ofOrdering order ∈ [lt, eq, gt] := by cases order <;> decide
  refine ⟨ofOrdering order, ⟨hmem, (happly _ hmem).mpr rfl⟩, ?_⟩
  rintro c ⟨hc, hholds⟩
  exact (happly c hc).mp hholds

/-- Equality and its negation are decided for all values and equality from both sides alike.
The comparisons by order are decided for values of one sort, and they all fail alike for
others. Where they are decided, each says from one side what its reverse says from the
other, the two that are not strict say what the strict ones and equality say together, and
just one of less, equal and greater holds; only where a number is undefined does none. -/
theorem comparisons_agree (a b : Expr) :
    (∃ e, eq.apply a b = .ok e ∧ eq.apply b a = .ok e ∧ ne.apply a b = .ok !e) ∧
    (∀ c ∈ orders, ((∃ v, c.apply a b = .ok v) ↔ a.Comparable b) ∧
      (¬a.Comparable b → c.apply a b = .error (.typeError (.comparison a.kind b.kind)))) ∧
    (a.Comparable b →
      (lt.apply a b = gt.apply b a ∧ le.apply a b = ge.apply b a) ∧
      (∃ l e g, lt.apply a b = .ok l ∧ eq.apply a b = .ok e ∧ gt.apply a b = .ok g ∧
        le.apply a b = .ok (l || e) ∧ ge.apply a b = .ok (g || e)) ∧
      (a.IsUndefined ∨ b.IsUndefined → ∀ c, c ≠ ne → c.apply a b = .ok false) ∧
      (¬(a.IsUndefined ∨ b.IsUndefined) → ∃! c, c ∈ [lt, eq, gt] ∧ c.apply a b = .ok true)) := by
  refine ⟨⟨a.equals b, rfl, congrArg Except.ok (equals_comm b a), rfl⟩, ?_, ?_⟩
  · intro c hc
    refine ⟨⟨fun hdecided => ?_, fun h => ?_⟩, apply_eq_error hc⟩
    · obtain ⟨v, hv⟩ := hdecided
      by_contra h
      rw [apply_eq_error hc h] at hv
      cases hv
    · obtain ⟨o, ho⟩ := exists_compares h
      rw [apply_of_mem_orders hc, ho.ordering_eq]
      exact ⟨_, rfl⟩
  · intro h
    obtain ⟨o, ho⟩ := exists_compares h
    refine ⟨apply_swap ho, exists_apply_or ho, fun hundefined c hc => ?_, fun hdefined => ?_⟩
    · rw [apply_of_compares ho hc, ho.eq_none_iff.mpr hundefined]
      rfl
    · cases o with
      | none => exact absurd (ho.eq_none_iff.mp rfl) hdefined
      | some order => exact existsUnique_apply ho

/-- An integer equals the float beside it that it is rounded to, with an undefined number
nothing holds, and a text has no place beside a number. -/
theorem comparisons_agree_rounded :
    (∃! c, c ∈ [lt, eq, gt] ∧
      c.apply (.integer 9007199254740993) (.float (.ofInt 9007199254740992)) = .ok true) ∧
    eq.apply (.integer 9007199254740993) (.float (.ofInt 9007199254740992)) = .ok true ∧
    le.apply (.float .nan) (.integer 0) = .ok false ∧
    ∀ c ∈ orders, c.apply (.text "1") (.integer 1) =
      .error (.typeError (.comparison .text .integer)) := by
  have hnumbers : (Expr.integer 9007199254740993).Comparable
      (.float (.ofInt 9007199254740992)) := Or.inl ⟨Or.inl rfl, Or.inr rfl⟩
  have hundefined : (Expr.float .nan).Comparable (.integer 0) := Or.inl ⟨Or.inr rfl, Or.inl rfl⟩
  refine ⟨?_, congrArg Except.ok (by decide +kernel), ?_, ?_⟩
  · exact ((comparisons_agree _ _).2.2 hnumbers).2.2.2 (by simp [Double.ofInt_ne_nan])
  · exact ((comparisons_agree _ _).2.2 hundefined).2.2.1 (Or.inl rfl) le (by decide)
  · exact fun c hc => ((comparisons_agree _ _).2.1 c hc).2 (by simp [Comparable])

end Comparison

end RadarQuery
