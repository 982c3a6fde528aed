import Mathlib.Data.List.ProdSigma
import Mathlib.Tactic.FinCases
import RadarQuery.Operator.Arithmetic
import RadarQuery.Operator.Comparison
import RadarQuery.Operator.Lifting
import RadarQuery.Proofs.EarlyExit

/-!
Lifted operators. The elements of two operands are paired with the left one outer and the
right one inner, so the pairing of the elements at `i` and at `j` stands at `i` times the
number of right elements plus `j`. Whichever operands are lists, a calculation works off
these pairings up to the first that fails, and a comparison up to the first that is not
plainly false.
-/

namespace RadarQuery

/-- The position of the first pair comes before that of the second: further left in the outer
operand, or in the same place there and further left in the inner one. -/
def Earlier (p q : ℕ × ℕ) : Prop :=
  p.1 < q.1 ∨ p.1 = q.1 ∧ p.2 < q.2

/-- The elements at `i` and `j` are the first pairing of the operands that has a property. -/
structure FirstPairing (P : Expr → Expr → Prop) (left right : Expr) (i j : ℕ) (l r : Expr) :
    Prop where
  left_eq : left.elements[i]? = some l
  right_eq : right.elements[j]? = some r
  holds : P l r
  earlier : ∀ i' j' l' r', left.elements[i']? = some l' → right.elements[j']? = some r' →
    Earlier (i', j') (i, j) → ¬P l' r'

def pairings (left right : Expr) : List (Expr × Expr) :=
  left.elements ×ˢ right.elements

section Positions

variable {α β : Type}

/-- Whole rows of the right elements stand before the pairing at a position. -/
theorem getElem?_product {as : List α} {bs : List β} {k : ℕ} {a : α} {b : β} :
    (as ×ˢ bs)[k]? = some (a, b) ↔
      as[k / bs.length]? = some a ∧ bs[k % bs.length]? = some b := by
  induction as generalizing k with
  | nil => simp
  | cons first as ih =>
    rw [List.product_cons]
    by_cases hk : k < bs.length
    · rw [List.getElem?_append_left (by rwa [List.length_map]), List.getElem?_map,
        Nat.div_eq_of_lt hk, Nat.mod_eq_of_lt hk, List.getElem?_cons_zero]
      simp only [Option.map_eq_some_iff, Prod.mk.injEq, Option.some.injEq]
      constructor
      · rintro ⟨b', hb, rfl, rfl⟩
        exact ⟨rfl, hb⟩
      · rintro ⟨rfl, hb⟩
        exact ⟨b, hb, rfl, rfl⟩
    · have hle : bs.length ≤ k := Nat.le_of_not_lt hk
      rw [List.getElem?_append_right (by rwa [List.length_map]), List.length_map, ih,
        ← Nat.mod_eq_sub_mod hle]
      rcases Nat.eq_zero_or_pos bs.length with hempty | hpos
      · simp [List.length_eq_zero_iff.mp hempty]
      · rw [Nat.div_eq_sub_div hpos hle, List.getElem?_cons_succ]

/-- The order of the pairings is the order of their positions. -/
theorem lt_iff_earlier {n k k' : ℕ} :
    k' < k ↔ Earlier (k' / n, k' % n) (k / n, k % n) := by
  have hk := Nat.div_add_mod k n
  have hk' := Nat.div_add_mod k' n
  constructor
  · intro h
    rcases Nat.lt_or_eq_of_le (Nat.div_le_div_right (c := n) (Nat.le_of_lt h)) with hrow | hrow
    · exact Or.inl hrow
    · refine Or.inr ⟨hrow, ?_⟩
      rw [hrow] at hk'
      change k' % n < k % n
      omega
  · intro h
    rcases h with hrow | ⟨hrow, hcolumn⟩
    · exact Nat.lt_of_div_lt_div hrow
    · change k' / n = k / n at hrow
      change k' % n < k % n at hcolumn
      rw [hrow] at hk'
      omega

theorem div_mod_position {i j n : ℕ} (hj : j < n) : (i * n + j) / n = i ∧ (i * n + j) % n = j := by
  have hn : 0 < n := Nat.zero_lt_of_lt hj
  constructor
  · rw [Nat.mul_comm, Nat.mul_add_div hn, Nat.div_eq_of_lt hj, Nat.add_zero]
  · rw [Nat.mul_comm, Nat.mul_add_mod, Nat.mod_eq_of_lt hj]

end Positions

section Pairings

variable {left right l r : Expr} {i j k : ℕ} {P : Expr → Expr → Prop}

theorem mem_pairings_iff :
    (l, r) ∈ pairings left right ↔ l ∈ left.elements ∧ r ∈ right.elements :=
  List.mem_product

theorem length_pairings (left right : Expr) :
    (pairings left right).length = left.elements.length * right.elements.length :=
  List.length_product _ _

theorem getElem?_pairings (hl : left.elements[i]? = some l) (hr : right.elements[j]? = some r) :
    (pairings left right)[i * right.elements.length + j]? = some (l, r) := by
  have hj : j < right.elements.length := (List.getElem?_eq_some_iff.mp hr).1
  obtain ⟨hdiv, hmod⟩ := div_mod_position (i := i) hj
  exact getElem?_product.mpr ⟨by rwa [hdiv], by rwa [hmod]⟩

/-- In front of the first pairing with a property stand pairings without it. -/
theorem FirstPairing.exists_split (h : FirstPairing P left right i j l r) :
    ∃ before rest, pairings left right = before ++ (l, r) :: rest ∧
      ∀ pair ∈ before, ¬P pair.1 pair.2 := by
  have hj : j < right.elements.length := (List.getElem?_eq_some_iff.mp h.right_eq).1
  obtain ⟨hdiv, hmod⟩ := div_mod_position (i := i) hj
  obtain ⟨hk, hget⟩ := List.getElem?_eq_some_iff.mp (getElem?_pairings h.left_eq h.right_eq)
  generalize i * right.elements.length + j = k at *
  refine ⟨(pairings left right).take k, (pairings left right).drop (k + 1), ?_, ?_⟩
  · rw [← hget, ← List.drop_eq_getElem_cons hk, List.take_append_drop]
  · rintro ⟨l', r'⟩ hmem
    obtain ⟨k', hlt, heq⟩ := List.mem_take_iff_getElem.mp hmem
    obtain ⟨hl', hr'⟩ := getElem?_product.mp (List.getElem?_eq_some_iff.mpr ⟨_, heq⟩)
    refine h.earlier _ _ l' r' hl' hr' ?_
    rw [← hdiv, ← hmod]
    exact lt_iff_earlier.mp (Nat.lt_of_lt_of_le hlt (Nat.min_le_left _ _))

/-- A property holds of no pairing, or of a first one. -/
theorem forall_not_or_exists_firstPairing (P : Expr → Expr → Prop) (left right : Expr) :
    (∀ l ∈ left.elements, ∀ r ∈ right.elements, ¬P l r) ∨
      ∃ i j l r, FirstPairing P left right i j l r := by
  rcases forall_not_or_exists_first (fun pair => P pair.1 pair.2) (pairings left right) with
    hnone | ⟨before, ⟨l, r⟩, rest, hsplit, hbefore, hholds⟩
  · exact Or.inl fun l hl r hr => hnone (l, r) (mem_pairings_iff.mpr ⟨hl, hr⟩)
  · have hget : (pairings left right)[before.length]? = some (l, r) := by simp [hsplit]
    obtain ⟨hl, hr⟩ := getElem?_product.mp hget
    refine Or.inr ⟨_, _, l, r, hl, hr, hholds, fun i' j' l' r' hl' hr' hearlier => ?_⟩
    have hj' : j' < right.elements.length := (List.getElem?_eq_some_iff.mp hr').1
    obtain ⟨hdiv, hmod⟩ := div_mod_position (i := i') hj'
    have hlt : i' * right.elements.length + j' < before.length := by
      rw [lt_iff_earlier (n := right.elements.length), hdiv, hmod]
      exact hearlier
    have hmem := getElem?_pairings hl' hr'
    rw [hsplit, List.getElem?_append_left hlt] at hmem
    exact hbefore (l', r') (List.mem_of_getElem? hmem)

end Pairings

section Branches

theorem pairings_list_list (ls rs : List Expr) :
    pairings (.list ls) (.list rs) = ls.flatMap fun l => rs.map fun r => (l, r) := rfl

theorem pairings_list_atom (ls : List Expr) (b : Atom) :
    pairings (.list ls) (.atom b) = ls.map fun l => (l, .atom b) :=
  List.map_eq_flatMap.symm

theorem pairings_atom_list (a : Atom) (rs : List Expr) :
    pairings (.atom a) (.list rs) = rs.map fun r => (.atom a, r) :=
  List.append_nil _

variable (operator : Expr → Expr → Except EvalError Expr)
  (condition : Expr → Expr → Except EvalError Bool) (left right : Expr)

theorem cartesian_eq_operator (hl : left.kind ≠ .list) (hr : right.kind ≠ .list) :
    cartesian operator left right = operator left right := by
  cases left with
  | list ls => exact absurd rfl hl
  | atom a =>
    cases right with
    | list rs => exact absurd rfl hr
    | atom b => rfl

/-- With a list among the operands a calculation works off the pairings. -/
theorem cartesian_eq_mapM (h : left.kind = .list ∨ right.kind = .list) :
    cartesian operator left right =
      ((pairings left right).mapM fun pair => operator pair.1 pair.2).map .list := by
  cases left with
  | list ls =>
    cases right with
    | list rs =>
      rw [pairings_list_list, mapM_flatMap]
      simp only [List.mapM_map]
      rfl
    | atom b =>
      rw [pairings_list_atom, List.mapM_map]
      rfl
  | atom a =>
    cases right with
    | list rs =>
      rw [pairings_atom_list, List.mapM_map]
      rfl
    | atom b => cases a <;> cases b <;> simp [Expr.kind, Atom.kind] at h

/-- A comparison works off the pairings, also without a list among the operands. -/
theorem existential_eq_anyM : existential condition left right =
    (pairings left right).anyM fun pair => condition pair.1 pair.2 := by
  cases left with
  | list ls =>
    cases right with
    | list rs =>
      rw [pairings_list_list, anyM_flatMap]
      simp only [anyM_map]
      rfl
    | atom b =>
      rw [pairings_list_atom, anyM_map]
      rfl
  | atom a =>
    cases right with
    | list rs =>
      rw [pairings_atom_list, anyM_map]
      rfl
    | atom b =>
      change _ = [(Expr.atom a, Expr.atom b)].anyM _
      rw [anyM_singleton]
      rfl

end Branches

section Results

variable {operator : Expr → Expr → Except EvalError Expr}
  {condition : Expr → Expr → Except EvalError Bool} {left right l r : Expr} {i j : ℕ}

theorem existential_eq_false
    (h : ∀ l ∈ left.elements, ∀ r ∈ right.elements, condition l r = .ok false) :
    existential condition left right = .ok false := by
  rw [existential_eq_anyM]
  refine anyM_eq_false fun pair hpair => ?_
  obtain ⟨hl, hr⟩ := mem_pairings_iff.mp hpair
  exact h pair.1 hl pair.2 hr

theorem existential_of_firstPairing
    (h : FirstPairing (fun l r => condition l r ≠ .ok false) left right i j l r) :
    existential condition left right = condition l r := by
  obtain ⟨before, rest, hsplit, hbefore⟩ := h.exists_split
  rw [existential_eq_anyM, hsplit]
  exact anyM_append_cons (fun pair hpair => not_not.mp (hbefore pair hpair)) h.holds

/-- A property that is the same up to a pairing has its first pairing there as well. -/
theorem FirstPairing.congr {P Q : Expr → Expr → Prop} (h : FirstPairing P left right i j l r)
    (hsame : ∀ i' j' l' r', left.elements[i']? = some l' → right.elements[j']? = some r' →
      ¬Earlier (i, j) (i', j') → (Q l' r' ↔ P l' r')) : FirstPairing Q left right i j l r where
  left_eq := h.left_eq
  right_eq := h.right_eq
  holds := (hsame i j l r h.left_eq h.right_eq (by simp [Earlier])).mpr h.holds
  earlier := by
    intro i' j' l' r' hl' hr' hearlier
    have hnot : ¬Earlier (i, j) (i', j') := by
      simp only [Earlier] at hearlier ⊢
      omega
    rw [hsame i' j' l' r' hl' hr' hnot]
    exact h.earlier i' j' l' r' hl' hr' hearlier

theorem cartesian_of_forall_ok (hlist : left.kind = .list ∨ right.kind = .list)
    (h : ∀ l ∈ left.elements, ∀ r ∈ right.elements, ∃ value, operator l r = .ok value) :
    ∃ results, cartesian operator left right = .ok (.list results) ∧
      results.length = left.elements.length * right.elements.length ∧
      ∀ i j l r, left.elements[i]? = some l → right.elements[j]? = some r →
        ∃ value, operator l r = .ok value ∧
          results[i * right.elements.length + j]? = some value := by
  have hall : ∀ pair ∈ pairings left right, ∃ value, operator pair.1 pair.2 = .ok value := by
    intro pair hpair
    obtain ⟨hl, hr⟩ := mem_pairings_iff.mp hpair
    exact h pair.1 hl pair.2 hr
  obtain ⟨results, hresults⟩ := exists_mapM_eq_ok hall
  have hentries := mapM_eq_ok_iff.mp hresults
  refine ⟨results, ?_, ?_, ?_⟩
  · rw [cartesian_eq_mapM operator left right hlist, hresults]
    rfl
  · have hlength := congrArg List.length hentries
    rw [List.length_map, List.length_map, length_pairings] at hlength
    exact hlength.symm
  · intro i j l r hl hr
    have hentry := congrArg (·[i * right.elements.length + j]?) hentries
    simp only [List.getElem?_map, getElem?_pairings hl hr, Option.map_some] at hentry
    obtain ⟨value, hvalue, hok⟩ := Option.map_eq_some_iff.mp hentry.symm
    exact ⟨value, hok.symm, hvalue⟩

theorem cartesian_of_firstPairing {cause : EvalError}
    (hlist : left.kind = .list ∨ right.kind = .list)
    (h : FirstPairing (fun l r => ∃ cause, operator l r = .error cause) left right i j l r)
    (hcause : operator l r = .error cause) : cartesian operator left right = .error cause := by
  obtain ⟨before, rest, hsplit, hbefore⟩ := h.exists_split
  have hall : ∀ pair ∈ before, ∃ value, operator pair.1 pair.2 = .ok value := fun pair hpair =>
    not_exists_error_iff.mp (hbefore pair hpair)
  rw [cartesian_eq_mapM operator left right hlist, hsplit, mapM_append_cons hall hcause]
  rfl

end Results

/-- A lifted comparison is false if it is false for every pairing, so always if an operand is
an empty list. Otherwise the first pairing that is not plainly false decides, by its success
or by its error, whatever the comparison says of the pairings behind it. -/
theorem existential_eq_of_pairings (condition : Expr → Expr → Except EvalError Bool)
    (left right : Expr) :
    ((∀ l ∈ left.elements, ∀ r ∈ right.elements, condition l r = .ok false) →
      existential condition left right = .ok false) ∧
    (left = .list [] ∨ right = .list [] → existential condition left right = .ok false) ∧
    (∀ i j l r, FirstPairing (fun l r => condition l r ≠ .ok false) left right i j l r →
      existential condition left right = condition l r ∧
      ∀ condition' : Expr → Expr → Except EvalError Bool,
        (∀ i' j' l' r', left.elements[i']? = some l' → right.elements[j']? = some r' →
          ¬Earlier (i, j) (i', j') → condition' l' r' = condition l' r') →
        existential condition' left right = condition l r) ∧
    ((∀ l ∈ left.elements, ∀ r ∈ right.elements, condition l r = .ok false) ∨
      ∃ i j l r, FirstPairing (fun l r => condition l r ≠ .ok false) left right i j l r) := by
  refine ⟨existential_eq_false, ?_, ?_, ?_⟩
  · intro hempty
    refine existential_eq_false fun l hl r hr => ?_
    rcases hempty with rfl | rfl
    · exact absurd hl List.not_mem_nil
    · exact absurd hr List.not_mem_nil
  · intro i j l r hfirst
    refine ⟨existential_of_firstPairing hfirst, fun condition' hsame => ?_⟩
    have hfirst' : FirstPairing (fun l r => condition' l r ≠ .ok false) left right i j l r :=
      hfirst.congr fun i' j' l' r' hl' hr' hnot => by rw [hsame i' j' l' r' hl' hr' hnot]
    rw [existential_of_firstPairing hfirst']
    exact hsame i j l r hfirst.left_eq hfirst.right_eq (by simp [Earlier])
  · refine (forall_not_or_exists_firstPairing _ left right).imp_left fun hnone l hl r hr => ?_
    exact not_not.mp (hnone l hl r hr)

/-- An error behind the first success is not seen, and a list among the elements is compared
as a list, which is an error. -/
theorem existential_eq_of_pairings_less :
    existential Comparison.lt.apply (.list [.integer 5, .text "x"])
      (.list [.integer 1, .integer 7, .text "y"]) = .ok true ∧
    existential Comparison.lt.apply (.list [.list [.integer 1], .integer 1]) (.integer 7) =
      .error (.typeError (.comparison .list .integer)) ∧
    existential Comparison.lt.apply (.list []) (.text "y") = .ok false := by
  have hless : Comparison.lt.apply (.integer 5) (.integer 7) = .ok true := rfl
  have hlist : Comparison.lt.apply (.list [.integer 1]) (.integer 7) =
    .error (.typeError (.comparison .list .integer)) := rfl
  obtain ⟨-, -, hsuccess, -⟩ := existential_eq_of_pairings Comparison.lt.apply
    (.list [.integer 5, .text "x"]) (.list [.integer 1, .integer 7, .text "y"])
  obtain ⟨-, -, herror, -⟩ := existential_eq_of_pairings Comparison.lt.apply
    (.list [.list [.integer 1], .integer 1]) (.integer 7)
  refine ⟨(hsuccess 0 1 (.integer 5) (.integer 7) ⟨rfl, rfl, by simp [hless], ?_⟩).1.trans hless,
    (herror 0 0 (.list [.integer 1]) (.integer 7) ⟨rfl, rfl, by simp [hlist], ?_⟩).1.trans hlist,
    (existential_eq_of_pairings _ _ _).2.1 (Or.inl rfl)⟩
  · intro i' j' l' r' hl' hr' hearlier
    obtain ⟨rfl, rfl⟩ : i' = 0 ∧ j' = 0 := by
      simp only [Earlier] at hearlier
      omega
    cases hl'
    cases hr'
    exact not_not.mpr rfl
  · intro i' j' l' r' hl' hr' hearlier
    simp only [Earlier] at hearlier
    omega

/-- A calculation on two values that are not lists is the operator itself. With a list among
them it gives the results for all pairings, row by row, or the error of the first pairing
that fails; an empty list on either side gives the empty list. -/
theorem cartesian_eq_of_pairings (operator : Expr → Expr → Except EvalError Expr)
    (left right : Expr) :
    (left.kind ≠ .list → right.kind ≠ .list →
      cartesian operator left right = operator left right) ∧
    (left.kind = .list ∨ right.kind = .list →
      (∀ l ∈ left.elements, ∀ r ∈ right.elements, ∃ value, operator l r = .ok value) →
      ∃ results, cartesian operator left right = .ok (.list results) ∧
        results.length = left.elements.length * right.elements.length ∧
        ∀ i j l r, left.elements[i]? = some l → right.elements[j]? = some r →
          ∃ value, operator l r = .ok value ∧
            results[i * right.elements.length + j]? = some value) ∧
    (left.kind = .list ∨ right.kind = .list → ∀ i j l r cause,
      FirstPairing (fun l r => ∃ cause, operator l r = .error cause) left right i j l r →
      operator l r = .error cause → cartesian operator left right = .error cause) ∧
    (left = .list [] ∨ right = .list [] → cartesian operator left right = .ok (.list [])) ∧
    ((∀ l ∈ left.elements, ∀ r ∈ right.elements, ∃ value, operator l r = .ok value) ∨
      ∃ i j l r,
        FirstPairing (fun l r => ∃ cause, operator l r = .error cause) left right i j l r) := by
  refine ⟨cartesian_eq_operator operator left right, cartesian_of_forall_ok,
    fun hlist i j l r cause => cartesian_of_firstPairing hlist, ?_, ?_⟩
  · intro hempty
    have hlist : left.kind = .list ∨ right.kind = .list := by
      rcases hempty with rfl | rfl
      · exact Or.inl rfl
      · exact Or.inr rfl
    have hnone : pairings left right = [] := by
      rcases hempty with rfl | rfl
      · exact List.nil_product _
      · exact List.product_nil _
    rw [cartesian_eq_mapM operator left right hlist, hnone]
    rfl
  · refine (forall_not_or_exists_firstPairing _ left right).imp_left fun hnone l hl r hr => ?_
    exact not_exists_error_iff.mp (hnone l hl r hr)

/-- The sum of the second element on the left and the first on the right is the third result,
and a division by zero is reported before the text that stands behind it. -/
theorem cartesian_eq_of_pairings_sums :
    (∃ results, cartesian Arithmetic.add.apply (.list [.integer 1, .integer 2])
        (.list [.integer 3, .integer 4]) = .ok (.list results) ∧ results.length = 2 * 2 ∧
      results[1 * 2 + 0]? = some (.integer 5)) ∧
    cartesian Arithmetic.divide.apply (.integer 8)
      (.list [.integer 2, .integer 0, .text "x"]) = .error .divisionByZero ∧
    cartesian Arithmetic.add.apply (.text "x") (.list []) = .ok (.list []) := by
  have hzero : Arithmetic.divide.apply (.integer 8) (.integer 0) = .error .divisionByZero := rfl
  obtain ⟨-, hsums, -, -⟩ := cartesian_eq_of_pairings Arithmetic.add.apply
    (.list [.integer 1, .integer 2]) (.list [.integer 3, .integer 4])
  obtain ⟨-, -, herror, -⟩ := cartesian_eq_of_pairings Arithmetic.divide.apply (.integer 8)
    (.list [.integer 2, .integer 0, .text "x"])
  refine ⟨?_, herror (Or.inr rfl) 0 1 (.integer 8) (.integer 0) .divisionByZero
    ⟨rfl, rfl, ⟨_, hzero⟩, ?_⟩ hzero, (cartesian_eq_of_pairings _ _ _).2.2.2.1 (Or.inr rfl)⟩
  · obtain ⟨results, hresults, hlength, hentries⟩ := hsums (Or.inl rfl) (by
      intro l hl r hr
      fin_cases hl <;> fin_cases hr <;> exact ⟨_, rfl⟩)
    obtain ⟨value, hvalue, hentry⟩ := hentries 1 0 (.integer 2) (.integer 3) rfl rfl
    have hsum : Arithmetic.add.apply (.integer 2) (.integer 3) = .ok (.integer 5) := rfl
    obtain rfl := Except.ok.inj (hvalue.symm.trans hsum)
    exact ⟨results, hresults, hlength, hentry⟩
  · intro i' j' l' r' hl' hr' hearlier
    obtain ⟨rfl, rfl⟩ : i' = 0 ∧ j' = 0 := by
      simp only [Earlier] at hearlier
      omega
    cases hl'
    cases hr'
    rintro ⟨cause, hcause⟩
    have hquotient : Arithmetic.divide.apply (.integer 8) (.integer 2) = .ok (.integer 4) := rfl
    rw [hquotient] at hcause
    cases hcause

end RadarQuery
