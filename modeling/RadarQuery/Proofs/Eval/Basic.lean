import RadarQuery.Eval.Basic
import RadarQuery.Proofs.Expr.Structure

/-!
Evaluation of a list in two steps: all its elements are evaluated, the head of a
call among them, and then the values are put together. The second step depends
on the elements only through the name that is called.
-/

namespace RadarQuery.Expr

def callee? (items : List Expr) : Option String :=
  items.head?.bind symbol?

theorem callee?_eq_none_iff {items : List Expr} :
    callee? items = none ↔ ∀ name, items.head? ≠ some (symbol name) := by
  rw [callee?, Option.bind_eq_none_iff]
  constructor
  · intro h name hhead
    cases h _ hhead
  · intro h e hhead
    cases e with
    | list items => rfl
    | atom a =>
      cases a with
      | symbol name => exact absurd hhead (h name)
      | _ => rfl

def conclude (tree : Option Metadata) : Option String → List Expr → Except EvalError Expr
  | some name, values =>
    match Procedure.lookup name tree with
    | some procedure => procedure.call values.tail
    | none => .error (.unknownProcedure name)
  | none, values => .ok (list values)

theorem evalItems_cons (tree : Option Metadata) (e : Expr) (es : List Expr) :
    evalItems tree (e :: es) =
      (eval tree e).bind fun value => (evalItems tree es).map fun values => value :: values := by
  rw [evalItems]
  cases eval tree e with
  | error cause => rfl
  | ok value => cases evalItems tree es <;> rfl

theorem eval_list (tree : Option Metadata) (items : List Expr) :
    eval tree (list items) = (evalItems tree items).bind (conclude tree (callee? items)) := by
  cases items with
  | nil => rfl
  | cons head args =>
    cases head with
    | list items =>
      rw [eval]
      · rfl
      · intro name rest h
        cases h
    | atom a =>
      cases a with
      | symbol name =>
        rw [evalItems_cons, eval, eval]
        cases evalItems tree args <;> rfl
      | _ =>
        rw [eval]
        · rfl
        · intro name rest h
          cases h

/-- A procedure is applied to the values of the arguments. -/
theorem eval_call {tree : Option Metadata} {name : String} {p : Procedure}
    (h : Procedure.lookup name tree = some p) (args : List Expr) :
    eval tree (list (symbol name :: args)) = (evalItems tree args).bind p.call := by
  rw [eval]
  simp only [h]
  rfl

/-- Elements with the same values in their places give the same values. -/
theorem evalItems_map {tree tree' : Option Metadata} {f : Expr → Expr} {items : List Expr}
    (h : ∀ e ∈ items, eval tree' (f e) = eval tree e) :
    evalItems tree' (items.map f) = evalItems tree items := by
  induction items with
  | nil => rfl
  | cons e es ih =>
    obtain ⟨hfirst, hrest⟩ := List.forall_mem_cons.mp h
    rw [List.map_cons, evalItems_cons, evalItems_cons, hfirst, ih hrest]

theorem callee?_map {f : Expr → Expr} (hf : ∀ e, (f e).symbol? = e.symbol?)
    (items : List Expr) : callee? (items.map f) = callee? items := by
  cases items with
  | nil => rfl
  | cons head args => exact hf head

end RadarQuery.Expr
