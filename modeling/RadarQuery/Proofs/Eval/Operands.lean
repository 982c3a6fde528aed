import RadarQuery.Eval.Procedure
import RadarQuery.Proofs.Operator.Lifting

/-!
Errors about operands and errors about a call. A call itself is wrong if no procedure has its
name or if it has too few or too many arguments. What procedures do with their arguments
never gives such an error: operators, references to the tree and the fields of dates and
times fail for what they are given.
-/

namespace RadarQuery

/-- The call itself is wrong, whatever its arguments are. -/
@[simp]
def EvalError.IsOfCall : EvalError → Prop
  | unknownProcedure _ => True
  | arity .. => True
  | _ => False

/-- A result that is a value or an error about what was given, not about a call. -/
def ConcernsOperands {α : Type} : Except EvalError α → Prop
  | .ok _ => True
  | .error cause => ¬cause.IsOfCall

namespace ConcernsOperands

variable {α β : Type} {result : Except EvalError α}

@[simp]
theorem ok (value : α) : ConcernsOperands (.ok value) := trivial

@[simp]
theorem error_iff {cause : EvalError} :
    ConcernsOperands (.error cause : Except EvalError α) ↔ ¬cause.IsOfCall := Iff.rfl

theorem ne_error {cause : EvalError} (h : ConcernsOperands result) (hcause : cause.IsOfCall) :
    result ≠ .error cause := by
  rintro rfl
  exact h hcause

theorem map {f : α → β} (h : ConcernsOperands result) : ConcernsOperands (result.map f) := by
  cases result with
  | error cause => exact h
  | ok value => exact ok (f value)

theorem bind {f : α → Except EvalError β} (h : ConcernsOperands result)
    (hf : ∀ value, ConcernsOperands (f value)) : ConcernsOperands (result.bind f) := by
  cases result with
  | error cause => exact h
  | ok value => exact hf value

theorem mapM {as : List α} {f : α → Except EvalError β} (h : ∀ a, ConcernsOperands (f a)) :
    ConcernsOperands (as.mapM f) := by
  induction as with
  | nil => exact ok []
  | cons a as ih =>
    rw [List.mapM_cons]
    exact (h a).bind fun b => ih.bind fun bs => ok (b :: bs)

theorem anyM {as : List α} {p : α → Except EvalError Bool} (h : ∀ a, ConcernsOperands (p a)) :
    ConcernsOperands (as.anyM p) := by
  induction as with
  | nil => exact ok false
  | cons a as ih =>
    rw [List.anyM]
    refine (h a).bind fun value => ?_
    cases value with
    | true => exact ok true
    | false => exact ih

end ConcernsOperands

namespace Arithmetic

variable (operation : Arithmetic)

theorem concernsOperands_integers (a b : Int64) : ConcernsOperands (operation.integers a b) := by
  simp only [integers]
  repeat' split
  all_goals simp

theorem concernsOperands_floats (x y : Double) : ConcernsOperands (operation.floats x y) := by
  unfold floats
  split <;> simp

theorem concernsOperands_mixed (a b : Option Decimal) (x y : Double) :
    ConcernsOperands (operation.mixed a b x y) := by
  unfold mixed
  split
  · simp
  · split
    · split
      · simp
      · exact operation.concernsOperands_floats x y
    · exact operation.concernsOperands_floats x y

theorem concernsOperands_apply (a b : Expr) : ConcernsOperands (operation.apply a b) := by
  unfold apply
  split
  · exact operation.concernsOperands_integers _ _
  · exact operation.concernsOperands_floats _ _
  · exact operation.concernsOperands_mixed _ _ _ _
  · exact operation.concernsOperands_mixed _ _ _ _
  · split <;> simp
  · simp

end Arithmetic

section Lifting

variable (left right : Expr)

theorem concernsOperands_cartesian {operator : Expr → Expr → Except EvalError Expr}
    (h : ∀ l r, ConcernsOperands (operator l r)) :
    ConcernsOperands (cartesian operator left right) := by
  by_cases hlist : left.kind = .list ∨ right.kind = .list
  · rw [cartesian_eq_mapM operator left right hlist]
    exact ConcernsOperands.map (ConcernsOperands.mapM fun pair => h pair.1 pair.2)
  · rw [not_or] at hlist
    rw [cartesian_eq_operator operator left right hlist.1 hlist.2]
    exact h left right

theorem concernsOperands_existential {condition : Expr → Expr → Except EvalError Bool}
    (h : ∀ l r, ConcernsOperands (condition l r)) :
    ConcernsOperands (existential condition left right) := by
  rw [existential_eq_anyM]
  exact ConcernsOperands.anyM fun pair => h pair.1 pair.2

theorem concernsOperands_comparison (comparison : Comparison) :
    ConcernsOperands (comparison.apply left right) := by
  have hordering : ConcernsOperands (ordering left right) := by
    unfold ordering
    split <;> simp
  unfold Comparison.apply
  split
  · simp
  · simp
  · exact hordering.map

theorem concernsOperands_like : ConcernsOperands (like left right) := by
  unfold like
  split <;> simp

theorem concernsOperands_isMember : ConcernsOperands (isMember left right) := by
  unfold isMember
  split <;> simp

end Lifting

theorem ScalarType.concernsOperands_coerce (wanted : ScalarType) (v : Scalar) :
    ConcernsOperands (wanted.coerce v) := by
  unfold coerce
  split <;> simp

theorem ScalarType.concernsOperands_ofName (type : String) : ConcernsOperands (ofName type) := by
  unfold ofName
  split <;> simp

namespace Metadata

variable (m : Metadata) (wanted : ScalarType)

theorem concernsOperands_resolveKey (holder key : String) :
    ConcernsOperands (m.resolveKey holder key wanted) := by
  unfold resolveKey
  split
  · simp
  · split
    · simp
    · split
      · simp
      · exact (wanted.concernsOperands_coerce _).map

theorem concernsOperands_resolveSuffix (names : List String) :
    ConcernsOperands (m.resolveSuffix names wanted) := by
  unfold resolveSuffix
  split
  · simp
  · exact ConcernsOperands.mapM fun _ => wanted.concernsOperands_coerce _

theorem concernsOperands_resolve (path : String) : ConcernsOperands (m.resolve path wanted) := by
  unfold resolve
  split
  · exact m.concernsOperands_resolveKey wanted _ _
  · exact m.concernsOperands_resolveSuffix wanted _

theorem concernsOperands_resolveNamed (path type : String) :
    ConcernsOperands (m.resolveNamed path type) :=
  (ScalarType.concernsOperands_ofName type).bind fun wanted =>
    m.concernsOperands_resolve wanted path

end Metadata

namespace Procedure

variable (p : Procedure)

theorem concernsOperands_integerArg (low high : Int) (e : Expr) :
    ConcernsOperands (p.integerArg low high e) := by
  unfold integerArg
  split
  · simp
  · split <;> simp

theorem concernsOperands_dateArg (year month day : Expr) :
    ConcernsOperands (p.dateArg year month day) := by
  refine (p.concernsOperands_integerArg _ _ year).bind fun y => ?_
  refine (p.concernsOperands_integerArg _ _ month).bind fun m => ?_
  refine (p.concernsOperands_integerArg _ _ day).bind fun d => ?_
  split <;> simp

theorem concernsOperands_timeArg (hour minute second : Expr) :
    ConcernsOperands (p.timeArg hour minute second) := by
  refine (p.concernsOperands_integerArg _ _ hour).bind fun h => ?_
  refine (p.concernsOperands_integerArg _ _ minute).bind fun m => ?_
  refine (p.concernsOperands_integerArg _ _ second).bind fun s => ?_
  split <;> simp

theorem concernsOperands_values (tree : Metadata) (path type : Expr) :
    ConcernsOperands (values tree path type) := by
  unfold values
  split
  · simp
  · split
    · simp
    · exact (tree.concernsOperands_resolveNamed _ _).map

end Procedure

end RadarQuery
