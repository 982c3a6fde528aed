import Mathlib.Data.List.Basic
import RadarQuery.Proofs.Eval.Arity
import RadarQuery.Proofs.Eval.Basic

/-!
Evaluation as one sequence of calls. The calls of an expression stand in the order in
which they are made: a call comes after those among its arguments, which come from
left to right. An expression has a value if all its calls succeed, and otherwise
the first that fails decides, whatever the calls around it are.
-/

namespace RadarQuery

structure Call where
  name : String
  args : List Expr

namespace Call

variable (tree : Option Metadata)

def ofItems? : List Expr → Option Call
  | .symbol name :: args => some ⟨name, args⟩
  | _ => none

def HasArgs (c : Call) (values : List Expr) : Prop :=
  c.args.map (Expr.eval tree) = values.map .ok

def apply (c : Call) (values : List Expr) : Except EvalError Expr :=
  match Procedure.lookup c.name tree with
  | some procedure => procedure.call values
  | none => .error (.unknownProcedure c.name)

def Succeeds (c : Call) : Prop :=
  ∃ values value, c.HasArgs tree values ∧ c.apply tree values = .ok value

def Fails (c : Call) (cause : EvalError) : Prop :=
  ∃ values, c.HasArgs tree values ∧ c.apply tree values = .error cause

/-- The first of the calls that does not succeed fails with this error. -/
inductive FirstFails : List Call → EvalError → Prop where
  | here {c : Call} {rest : List Call} {cause : EvalError} : c.Fails tree cause →
      FirstFails (c :: rest) cause
  | later {c : Call} {rest : List Call} {cause : EvalError} : c.Succeeds tree →
      FirstFails rest cause → FirstFails (c :: rest) cause

def Explain {α : Type} (calls : List Call) : Except EvalError α → Prop
  | .ok _ => ∀ c ∈ calls, c.Succeeds tree
  | .error cause => FirstFails tree calls cause

variable {tree}

theorem HasArgs.unique {c : Call} {values values' : List Expr} (h : c.HasArgs tree values)
    (h' : c.HasArgs tree values') : values = values' :=
  List.map_injective_iff.mpr (fun _ _ => Except.ok.inj) (h.symm.trans h')

theorem Fails.unique {c : Call} {cause cause' : EvalError} (h : c.Fails tree cause)
    (h' : c.Fails tree cause') : cause = cause' := by
  obtain ⟨values, hargs, happly⟩ := h
  obtain ⟨values', hargs', happly'⟩ := h'
  obtain rfl := hargs.unique hargs'
  exact Except.error.inj (happly.symm.trans happly')

theorem Fails.not_succeeds {c : Call} {cause : EvalError} (h : c.Fails tree cause) :
    ¬c.Succeeds tree := by
  rintro ⟨values', value, hargs', happly'⟩
  obtain ⟨values, hargs, happly⟩ := h
  obtain rfl := hargs.unique hargs'
  rw [happly] at happly'
  cases happly'

/-- Only the look-up reports an unknown procedure, and it comes after the arguments. -/
theorem Fails.lookup_eq_none {c : Call} {name : String}
    (h : c.Fails tree (.unknownProcedure name)) :
    c.name = name ∧ Procedure.lookup name tree = none ∧ ∃ values, c.HasArgs tree values := by
  obtain ⟨values, hargs, happly⟩ := h
  unfold apply at happly
  split at happly
  case h_1 procedure hfound => exact absurd happly (procedure.call_ne_unknownProcedure values name)
  case h_2 hmissing =>
    cases happly
    exact ⟨rfl, hmissing, values, hargs⟩

theorem FirstFails.unique {calls : List Call} {cause cause' : EvalError}
    (h : FirstFails tree calls cause) (h' : FirstFails tree calls cause') : cause = cause' := by
  induction h with
  | here hfails =>
    cases h' with
    | here hfails' => exact hfails.unique hfails'
    | later hsucceeds' _ => exact absurd hsucceeds' hfails.not_succeeds
  | later hsucceeds _ ih =>
    cases h' with
    | here hfails' => exact absurd hsucceeds hfails'.not_succeeds
    | later _ hrest' => exact ih hrest'

theorem FirstFails.exists_fails {calls : List Call} {cause : EvalError}
    (h : FirstFails tree calls cause) : ∃ c ∈ calls, c.Fails tree cause := by
  induction h with
  | here hfails => exact ⟨_, List.mem_cons_self .., hfails⟩
  | later _ _ ih =>
    obtain ⟨c, hc, hfails⟩ := ih
    exact ⟨c, List.mem_cons_of_mem _ hc, hfails⟩

theorem FirstFails.append_right {calls : List Call} {cause : EvalError}
    (h : FirstFails tree calls cause) (rest : List Call) :
    FirstFails tree (calls ++ rest) cause := by
  induction h with
  | here hfails => exact here hfails
  | later hsucceeds _ ih => exact later hsucceeds ih

theorem FirstFails.append_left {calls rest : List Call} {cause : EvalError}
    (hcalls : ∀ c ∈ calls, c.Succeeds tree) (h : FirstFails tree rest cause) :
    FirstFails tree (calls ++ rest) cause := by
  induction calls with
  | nil => exact h
  | cons c calls ih =>
    obtain ⟨hfirst, hothers⟩ := List.forall_mem_cons.mp hcalls
    exact later hfirst (ih hothers)

section Explain

variable {α β : Type} {calls rest : List Call} {result : Except EvalError α}

/-- What is done with a value comes after the calls that it took. -/
theorem Explain.bind {f : α → Except EvalError β} (h : Explain tree calls result)
    (hrest : ∀ value, result = .ok value → Explain tree rest (f value)) :
    Explain tree (calls ++ rest) (result.bind f) := by
  cases result with
  | error cause => exact FirstFails.append_right h rest
  | ok value =>
    have hvalue : Explain tree rest (f value) := hrest value rfl
    change Explain tree (calls ++ rest) (f value)
    cases hf : f value with
    | error cause =>
      rw [hf] at hvalue
      exact FirstFails.append_left h hvalue
    | ok value' =>
      rw [hf] at hvalue
      exact List.forall_mem_append.mpr ⟨h, hvalue⟩

theorem Explain.map {f : α → β} (h : Explain tree calls result) :
    Explain tree calls (result.map f) := by
  cases result <;> exact h

end Explain

end Call

namespace Expr

open Call

variable {tree : Option Metadata}

/-- The calls at any depth in the order in which they are made. -/
def calls (e : Expr) : List Call :=
  e.lists.filterMap Call.ofItems?

def callsOfItems (items : List Expr) : List Call :=
  (listsOfItems items).filterMap Call.ofItems?

theorem callsOfItems_cons (e : Expr) (es : List Expr) :
    callsOfItems (e :: es) = e.calls ++ callsOfItems es :=
  List.filterMap_append

theorem calls_list (items : List Expr) :
    (list items).calls = callsOfItems items ++ (Call.ofItems? items).toList := by
  rw [calls, lists, List.filterMap_append, callsOfItems]
  cases hcall : Call.ofItems? items <;> simp [hcall]

/-- The elements have the values that stand in their places. -/
theorem evalItems_eq_ok_iff {items values : List Expr} :
    evalItems tree items = .ok values ↔ items.map (eval tree) = values.map .ok := by
  have hmap : evalItems tree items = items.mapM (eval tree) := by
    induction items with
    | nil => rfl
    | cons e es ih =>
      rw [evalItems, List.mapM_cons, ih]
      rfl
  rw [hmap, mapM_eq_ok_iff]

/-- With values for all elements a call is applied to those of its arguments. -/
theorem explain_conclude {items values : List Expr} (h : evalItems tree items = .ok values) :
    Explain tree (Call.ofItems? items).toList (conclude tree (callee? items) values) := by
  unfold Call.ofItems?
  split
  case h_1 name args =>
    have hargs : (⟨name, args⟩ : Call).HasArgs tree values.tail := by
      have htail := congrArg List.tail (evalItems_eq_ok_iff.mp h)
      rwa [List.map_cons, List.tail_cons, ← List.map_tail] at htail
    have happly : conclude tree (callee? (symbol name :: args)) values =
        (⟨name, args⟩ : Call).apply tree values.tail := rfl
    rw [happly]
    cases hresult : (⟨name, args⟩ : Call).apply tree values.tail with
    | error cause => exact FirstFails.here ⟨values.tail, hargs, hresult⟩
    | ok value =>
      intro c hc
      obtain rfl := List.mem_singleton.mp hc
      exact ⟨values.tail, value, hargs, hresult⟩
  case h_2 hdata =>
    have hcallee : callee? items = none := by
      refine callee?_eq_none_iff.mpr fun name hname => ?_
      obtain ⟨args, heq⟩ := List.head?_eq_some_iff.mp hname
      exact hdata name args heq
    rw [hcallee]
    intro c hc
    cases hc

theorem explain_eval (e : Expr) : Explain tree e.calls (e.eval tree) := by
  induction e using Expr.induction with
  | atom a =>
    intro c hc
    cases hc
  | list items ih =>
    have hitems : Explain tree (callsOfItems items) (evalItems tree items) := by
      induction items with
      | nil =>
        intro c hc
        cases hc
      | cons e es ihs =>
        obtain ⟨hfirst, hothers⟩ := List.forall_mem_cons.mp ih
        rw [callsOfItems_cons, evalItems_cons]
        exact hfirst.bind fun value _ => (ihs hothers).map
    rw [calls_list, eval_list]
    exact hitems.bind fun values hvalues => explain_conclude hvalues

theorem lists_subset {e part : Expr} {items : List Expr} (hitems : items ∈ e.lists)
    (hpart : part ∈ items) : part.lists ⊆ e.lists := by
  induction e using Expr.induction with
  | atom a => cases hitems
  | list elements ih =>
    rcases List.mem_append.mp hitems with hinner | hself
    · obtain ⟨e, he, hinner⟩ := mem_listsOfItems.mp hinner
      exact fun l hl => mem_lists_of_mem he (ih e he hinner hl)
    · obtain rfl := List.mem_singleton.mp hself
      exact fun l hl => mem_lists_of_mem hpart hl

/-- With a value for the whole every call in it has succeeded. -/
theorem succeeds_of_eval {e value : Expr} (h : e.eval tree = .ok value) :
    ∀ c ∈ e.calls, c.Succeeds tree := by
  have hcalls : Explain tree e.calls (e.eval tree) := explain_eval e
  rwa [h] at hcalls

theorem firstFails_of_eval {e : Expr} {cause : EvalError} (h : e.eval tree = .error cause) :
    FirstFails tree e.calls cause := by
  have hcalls : Explain tree e.calls (e.eval tree) := explain_eval e
  rwa [h] at hcalls

theorem eval_eq_ok_iff {e : Expr} :
    (∃ value, e.eval tree = .ok value) ↔ ∀ c ∈ e.calls, c.Succeeds tree := by
  constructor
  · rintro ⟨value, h⟩
    exact succeeds_of_eval h
  · intro h
    cases hresult : e.eval tree with
    | ok value => exact ⟨value, rfl⟩
    | error cause =>
      obtain ⟨c, hc, hfails⟩ := (firstFails_of_eval hresult).exists_fails
      exact absurd (h c hc) hfails.not_succeeds

theorem eval_eq_error_iff {e : Expr} {cause : EvalError} :
    e.eval tree = .error cause ↔ FirstFails tree e.calls cause := by
  constructor
  · exact firstFails_of_eval
  · intro h
    cases hresult : e.eval tree with
    | ok value =>
      obtain ⟨c, hc, hfails⟩ := h.exists_fails
      exact absurd (succeeds_of_eval hresult c hc) hfails.not_succeeds
    | error cause' => rw [(firstFails_of_eval hresult).unique h]

/-- Nothing inside an expression fails without it. -/
theorem exists_error_of_part {e part : Expr} {items : List Expr} {cause : EvalError}
    (hitems : items ∈ e.lists) (hpart : part ∈ items) (h : part.eval tree = .error cause) :
    ∃ cause', e.eval tree = .error cause' := by
  obtain ⟨c, hc, hfails⟩ := (firstFails_of_eval h).exists_fails
  obtain ⟨l, hl, hlist⟩ := List.mem_filterMap.mp hc
  have hcall : c ∈ e.calls := List.mem_filterMap.mpr ⟨l, lists_subset hitems hpart hl, hlist⟩
  cases hresult : e.eval tree with
  | ok value => exact absurd (succeeds_of_eval hresult c hcall) hfails.not_succeeds
  | error cause' => exact ⟨cause', rfl⟩

/-- An expression has a value exactly if all its calls succeed, and otherwise its error is
that of the first call that fails. So a procedure is reported as unknown only after its
arguments have been evaluated, and a part that fails, be it an operand or an element of
a list of data at any depth, is never passed over. -/
theorem eval_strict (tree : Option Metadata) (e : Expr) :
    ((∃ value, e.eval tree = .ok value) ↔ ∀ c ∈ e.calls, c.Succeeds tree) ∧
    (∀ cause, e.eval tree = .error cause ↔ FirstFails tree e.calls cause) ∧
    (∀ name, e.eval tree = .error (.unknownProcedure name) →
      ∃ c ∈ e.calls, c.name = name ∧ Procedure.lookup name tree = none ∧
        ∃ values, c.HasArgs tree values) ∧
    ∀ items ∈ e.lists, ∀ part ∈ items, ∀ cause, part.eval tree = .error cause →
      ∃ cause', e.eval tree = .error cause' := by
  refine ⟨eval_eq_ok_iff, fun cause => eval_eq_error_iff, ?_, ?_⟩
  · intro name h
    obtain ⟨c, hc, hfails⟩ := (firstFails_of_eval h).exists_fails
    exact ⟨c, hc, hfails.lookup_eq_none⟩
  · intro items hitems part hpart cause h
    exact exists_error_of_part hitems hpart h

/-- The division is reported, neither the unknown procedure that it is an argument of nor the
operand that would have settled the conjunction. -/
theorem eval_strict_division_by_zero :
    (list [symbol "and", boolean false, list [symbol "nope", list [symbol "/", integer 1,
      integer 0]]]).eval none = .error .divisionByZero ∧
    (∃ cause', (list [symbol "and", boolean false, list [symbol "nope"]]).eval none =
      .error cause') ∧
    ∃ c ∈ (list [symbol "nope", integer 1]).calls, c.name = "nope" ∧
      Procedure.lookup "nope" none = none ∧ ∃ values, c.HasArgs none values := by
  refine ⟨((eval_strict none _).2.1 _).mpr (FirstFails.here ⟨[integer 1, integer 0], rfl, rfl⟩),
    (eval_strict none _).2.2.2 [symbol "and", boolean false, list [symbol "nope"]]
      (mem_lists_self _) (list [symbol "nope"]) (by simp) (.unknownProcedure "nope") rfl,
    (eval_strict none _).2.2.1 "nope" rfl⟩

end Expr

end RadarQuery
