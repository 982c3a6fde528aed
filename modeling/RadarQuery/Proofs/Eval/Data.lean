import RadarQuery.Proofs.Eval.Calls
import RadarQuery.Proofs.Metadata.Resolution
import RadarQuery.Proofs.Operator.Exactness

/-!
Expressions that are their own value. A call never gives back the list that it is written
as: its value is an atom or a list of literals, none of them the name in front, unless the
procedure is the one that makes a list, and then the value is shorter than the call by that
name. So what evaluation leaves alone is the data, the expressions without a call at any
depth.
-/

namespace RadarQuery

/-- A calculation on two values gives a number or a text. -/
theorem Arithmetic.isLiteral_of_apply {operation : Arithmetic} {a b e : Expr}
    (h : operation.apply a b = .ok e) : e.isLiteral := by
  have houtcome := outcome_apply operation a b
  rw [h] at houtcome
  cases houtcome <;> rfl

theorem isLiteral_of_mem_cartesian {operator : Expr → Expr → Except EvalError Expr}
    (hoperator : ∀ l r e, operator l r = .ok e → e.isLiteral) {left right : Expr}
    {found : List Expr} (h : cartesian operator left right = .ok (.list found)) {e : Expr}
    (he : e ∈ found) : e.isLiteral := by
  by_cases hlist : left.kind = .list ∨ right.kind = .list
  · rw [cartesian_eq_mapM operator left right hlist] at h
    obtain ⟨values, hvalues, heq⟩ := map_eq_ok_iff.mp h
    obtain rfl : values = found := Expr.list.inj heq
    obtain ⟨pair, -, hpair⟩ := exists_of_mem_mapM hvalues he
    exact hoperator _ _ _ hpair
  · rw [not_or] at hlist
    rw [cartesian_eq_operator operator left right hlist.1 hlist.2] at h
    cases hoperator _ _ _ h

namespace Procedure

/-- What is made of a result as an atom is no list. -/
theorem map_atom_ne_list {α : Type} {result : Except EvalError α} {f : α → Atom}
    {found : List Expr} (h : (result.map fun value => Expr.atom (f value)) = .ok (.list found)) :
    False := by
  obtain ⟨value, -, heq⟩ := map_eq_ok_iff.mp h
  cases heq

theorem isLiteral_of_mem_values {tree : Metadata} {path type e : Expr} {found : List Expr}
    (h : values tree path type = .ok (.list found)) (he : e ∈ found) : e.isLiteral := by
  unfold values at h
  split at h
  case h_1 => cases h
  case h_2 =>
    split at h
    case h_1 => cases h
    case h_2 =>
      obtain ⟨resolved, hresolved, heq⟩ := map_eq_ok_iff.mp h
      obtain rfl : resolved = found := Expr.list.inj heq
      exact Metadata.isLiteral_of_mem_resolveNamed hresolved he

/-- A list that a call gives holds the arguments as they are, or nothing but literals. -/
theorem eq_or_isLiteral_of_call {p : Procedure} {args found : List Expr}
    (h : p.call args = .ok (.list found)) : found = args ∨ ∀ e ∈ found, e.isLiteral := by
  unfold call at h
  split at h
  case h_1 =>
    exact Or.inr fun e he =>
      isLiteral_of_mem_cartesian (fun _ _ _ => Arithmetic.isLiteral_of_apply) h he
  case h_2 => exact (map_atom_ne_list h).elim
  case h_3 => exact (map_atom_ne_list h).elim
  case h_4 => cases h
  case h_5 => cases h
  case h_6 => cases h
  case h_7 => exact (map_atom_ne_list h).elim
  case h_8 => split at h <;> cases h
  case h_9 => exact Or.inl (by cases h; rfl)
  case h_10 => exact (map_atom_ne_list h).elim
  case h_11 => exact (map_atom_ne_list h).elim
  case h_12 =>
    obtain ⟨day, -, htime⟩ := bind_eq_ok_iff.mp h
    obtain ⟨clock, -, htext⟩ := bind_eq_ok_iff.mp htime
    cases htext
  case h_13 => exact Or.inr fun e he => isLiteral_of_mem_values h he
  case h_14 => cases h

end Procedure

namespace Expr

variable {tree : Option Metadata}

theorem evalItems_eq_self_iff {items : List Expr} :
    evalItems tree items = .ok items ↔ ∀ e ∈ items, e.eval tree = .ok e := by
  rw [evalItems_eq_ok_iff, List.map_inj_left]

/-- A call is not its own value: the arguments alone are one element short, and literals do
not have the name of a procedure among them. -/
theorem eval_call_ne_self (name : String) (args : List Expr) :
    eval tree (list (symbol name :: args)) ≠ .ok (list (symbol name :: args)) := by
  intro h
  rw [eval_list] at h
  obtain ⟨values, hvalues, hcall⟩ := bind_eq_ok_iff.mp h
  simp only [callee?, List.head?_cons, Option.bind_some, symbol?, conclude] at hcall
  split at hcall
  case h_2 => cases hcall
  case h_1 procedure _ =>
    rcases procedure.eq_or_isLiteral_of_call hcall with hargs | hliteral
    · have hlength := congrArg List.length (evalItems_eq_ok_iff.mp hvalues)
      have hshort := congrArg List.length hargs
      simp only [List.length_map, List.length_cons, List.length_tail] at hlength hshort
      omega
    · have hname := hliteral (symbol name) (List.mem_cons_self ..)
      simp [isLiteral, Atom.kind] at hname

/-- A list is its own value if it is no call and its elements are their own values. -/
theorem eval_list_eq_self_iff {items : List Expr} :
    (list items).eval tree = .ok (list items) ↔
      (∀ name, items.head? ≠ some (symbol name)) ∧ ∀ e ∈ items, e.eval tree = .ok e := by
  constructor
  · intro h
    have hhead : ∀ name, items.head? ≠ some (symbol name) := by
      intro name hname
      obtain ⟨args, rfl⟩ := List.head?_eq_some_iff.mp hname
      exact eval_call_ne_self name args h
    rw [eval_list, callee?_eq_none_iff.mpr hhead] at h
    obtain ⟨values, hvalues, heq⟩ := bind_eq_ok_iff.mp h
    obtain rfl : values = items := by simpa [conclude] using heq
    exact ⟨hhead, evalItems_eq_self_iff.mp hvalues⟩
  · intro h
    rw [eval_list, callee?_eq_none_iff.mpr h.1, evalItems_eq_self_iff.mpr h.2]
    rfl

/-- An expression is its own value exactly if no list at any depth has a symbol in front. -/
theorem eval_eq_self_iff (tree : Option Metadata) (e : Expr) :
    e.eval tree = .ok e ↔ ∀ items ∈ e.lists, ∀ name, items.head? ≠ some (symbol name) := by
  induction e using Expr.induction with
  | atom a => simp [eval, lists]
  | list items ih =>
    rw [eval_list_eq_self_iff, forall_mem_lists_iff]
    exact and_congr_right' (forall₂_congr ih)

/-- Symbols further back, unknown ones too, and numbers that are not defined do not count. -/
example : (list [integer 1, symbol "nope", list [list [], float .nan]]).eval none =
    .ok (list [integer 1, symbol "nope", list [list [], float .nan]]) := rfl

end Expr

end RadarQuery
