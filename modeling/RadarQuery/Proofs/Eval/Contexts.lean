import RadarQuery.Proofs.Eval.Basic

/-!
Expressions with one place left open. What stands in the place is seen from outside
only through its value or its error, except at the head of a list, where a symbol
makes the list a call. So a part of an expression can be exchanged, at any depth,
for any other part with the same result.
-/

namespace RadarQuery.Expr

/-- An expression with one place left open. -/
inductive Context where
  | hole
  | list (before : List Expr) (inner : Context) (behind : List Expr)

namespace Context

def fill : Context → Expr → Expr
  | hole, e => e
  | list before inner behind, e => .list (before ++ inner.fill e :: behind)

def AtHead : Context → Prop
  | hole => False
  | list before hole _ => before = []
  | list _ inner _ => inner.AtHead

end Context

section Alike

variable {ε α β : Type} {view : EvalError → ε} {r s : Except EvalError α}

/-- The same value, or two errors that look the same in `view`. -/
def Alike (view : EvalError → ε) (r s : Except EvalError α) : Prop :=
  r.mapError view = s.mapError view

theorem alike_id : Alike id r s ↔ r = s := by
  have hid : ∀ t : Except EvalError α, t.mapError id = t := by
    intro t
    cases t <;> rfl
  rw [Alike, hid, hid]

theorem Alike.bind {f g : α → Except EvalError β} (h : Alike view r s)
    (hfg : ∀ value, Alike view (f value) (g value)) : Alike view (r.bind f) (s.bind g) := by
  cases r with
  | error cause =>
    cases s with
    | error cause' => exact congrArg Except.error (Except.error.inj h)
    | ok value' => cases h
  | ok value =>
    cases s with
    | error cause' => cases h
    | ok value' =>
      obtain rfl : value = value' := Except.ok.inj h
      exact hfg value

theorem Alike.map (h : Alike view r s) (f : α → β) : Alike view (r.map f) (s.map f) := by
  have hbind : ∀ t : Except EvalError α, t.map f = t.bind fun value => .ok (f value) := by
    intro t
    cases t <;> rfl
  rw [hbind, hbind]
  exact h.bind fun value => rfl

end Alike

section Exchange

variable {ε : Type} {view : EvalError → ε} {tree : Option Metadata} {a b : Expr}
  {before behind : List Expr}

/-- The elements in front are evaluated first, whatever stands behind them. -/
theorem alike_evalItems (h : Alike view (a.eval tree) (b.eval tree)) :
    Alike view (evalItems tree (before ++ a :: behind))
      (evalItems tree (before ++ b :: behind)) := by
  induction before with
  | nil =>
    rw [List.nil_append, List.nil_append, evalItems_cons, evalItems_cons]
    exact h.bind fun value => rfl
  | cons e es ih =>
    rw [List.cons_append, List.cons_append, evalItems_cons, evalItems_cons]
    exact Alike.bind rfl fun value => ih.map _

theorem alike_eval_list (h : Alike view (a.eval tree) (b.eval tree))
    (hcallee : before = [] → a.symbol? = b.symbol?) :
    Alike view ((list (before ++ a :: behind)).eval tree)
      ((list (before ++ b :: behind)).eval tree) := by
  have hname : callee? (before ++ a :: behind) = callee? (before ++ b :: behind) := by
    cases before with
    | nil => exact hcallee rfl
    | cons head rest => rfl
  rw [eval_list, eval_list, hname]
  exact (alike_evalItems h).bind fun values => rfl

/-- Every level around the open place sees the same result, and no list becomes a call or
stops being one. -/
theorem alike_eval_fill {C : Context} (hhead : C.AtHead → a.symbol? = b.symbol?)
    (h : Alike view (a.eval tree) (b.eval tree)) :
    Alike view ((C.fill a).eval tree) ((C.fill b).eval tree) := by
  induction C with
  | hole => exact h
  | list before inner behind ih =>
    -- Only where the place is an element itself can it be the head; deeper down the element
    -- is a list whatever is put in.
    cases inner with
    | hole => exact alike_eval_list h hhead
    | list before' inner behind' => exact alike_eval_list (ih hhead) fun _ => rfl

end Exchange

/-- Parts with the same value or the same error can be exchanged at any depth, symbols at the
head of a list apart; so can parts whose errors have the same text. Elsewhere a part
can be replaced by its value if that is its own value. -/
theorem eval_fill_congr (tree : Option Metadata) (C : Context) :
    (∀ a b : Expr, (C.AtHead → a.symbol? = none ∧ b.symbol? = none) →
      a.eval tree = b.eval tree → (C.fill a).eval tree = (C.fill b).eval tree) ∧
    (∀ a b : Expr, (C.AtHead → a.symbol? = none ∧ b.symbol? = none) →
      Alike EvalError.message (a.eval tree) (b.eval tree) →
      Alike EvalError.message ((C.fill a).eval tree) ((C.fill b).eval tree)) ∧
    ∀ a value : Expr, ¬C.AtHead → a.eval tree = .ok value → value.eval tree = .ok value →
      (C.fill value).eval tree = (C.fill a).eval tree := by
  have hsame : ∀ a b : Expr, (C.AtHead → a.symbol? = none ∧ b.symbol? = none) →
      C.AtHead → a.symbol? = b.symbol? := by
    intro a b hnone hhead
    rw [(hnone hhead).1, (hnone hhead).2]
  refine ⟨?_, ?_, ?_⟩
  · intro a b hnone h
    exact alike_id.mp (alike_eval_fill (hsame a b hnone) (alike_id.mpr h))
  · intro a b hnone h
    exact alike_eval_fill (hsame a b hnone) h
  · intro a value hhead ha hvalue
    exact alike_id.mp (alike_eval_fill (fun h => absurd h hhead)
      (alike_id.mpr (hvalue.trans ha.symm)))

/-- A sum is folded inside a comparison; the head of a list of data and an operand that fails
are exchanged for others with the same result. -/
theorem eval_fill_congr_folded_sum :
    (list [symbol "not", list [symbol "=", integer 3, integer 3]]).eval none =
      (list [symbol "not", list [symbol "=", list [symbol "+", integer 1, integer 2],
        integer 3]]).eval none ∧
    (list [list [symbol "list", integer 1], integer 7]).eval none =
      (list [list [integer 1], integer 7]).eval none ∧
    Alike EvalError.message
      ((list [symbol "not", list [symbol "/", integer 1, integer 0]]).eval none)
      ((list [symbol "not", list [symbol "/", integer 2, integer 0]]).eval none) := by
  have hone : (list [symbol "/", integer 1, integer 0]).eval none = .error .divisionByZero := rfl
  have htwo : (list [symbol "/", integer 2, integer 0]).eval none = .error .divisionByZero := rfl
  refine ⟨?_, ?_, ?_⟩
  · exact (eval_fill_congr none
      (.list [symbol "not"] (.list [symbol "="] .hole [integer 3]) [])).2.2
      (list [symbol "+", integer 1, integer 2]) (integer 3) nofun rfl rfl
  · exact (eval_fill_congr none (.list [] .hole [integer 7])).1
      (list [symbol "list", integer 1]) (list [integer 1]) (fun _ => ⟨rfl, rfl⟩) rfl
  · exact (eval_fill_congr none (.list [symbol "not"] .hole [])).2.1
      (list [symbol "/", integer 1, integer 0]) (list [symbol "/", integer 2, integer 0])
      nofun (by rw [hone, htwo, Alike])

/-- At the head of a list a symbol is not exchangeable: the call that makes it has the same
value, but a list headed by that call is data. -/
example : (symbol "+").eval none = (list [symbol "symbol", text "+"]).eval none ∧
    (list [symbol "+", integer 1, integer 2]).eval none = .ok (integer 3) ∧
    (list [list [symbol "symbol", text "+"], integer 1, integer 2]).eval none =
      .ok (list [symbol "+", integer 1, integer 2]) :=
  ⟨rfl, rfl, rfl⟩

end RadarQuery.Expr
