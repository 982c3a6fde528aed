import RadarQuery.Eval.Error
import RadarQuery.Expr.Equality

/-!
Operators on lists. A reference to metadata gives a list, so the operators on
two values are lifted: a calculation is made for every pairing of elements, and
a comparison holds if it holds for some pairing. Pairings are taken with the
left element outer and the right one inner.
-/

namespace RadarQuery

def Expr.elements : Expr → List Expr
  | .list items => items
  | e => [e]

/-- The results for all pairings, as a list unless neither operand is one; the first
that fails is the result. -/
def cartesian (operator : Expr → Expr → Except EvalError Expr) (left right : Expr) :
    Except EvalError Expr :=
  match left, right with
  | .list ls, .list rs => (ls.flatMapM fun l => rs.mapM fun r => operator l r).map .list
  | .list ls, r => (ls.mapM fun l => operator l r).map .list
  | l, .list rs => (rs.mapM fun r => operator l r).map .list
  | l, r => operator l r

/-- Whether some pairing satisfies a condition; the first that does, or that fails,
decides. -/
def existential (condition : Expr → Expr → Except EvalError Bool) (left right : Expr) :
    Except EvalError Bool :=
  match left, right with
  | .list ls, .list rs => ls.anyM fun l => rs.anyM fun r => condition l r
  | .list ls, r => ls.anyM fun l => condition l r
  | l, .list rs => rs.anyM fun r => condition l r
  | l, r => condition l r

def isMember (left right : Expr) : Except EvalError Bool :=
  match right with
  | .list items => .ok (left.elements.any fun l => items.any fun r => l.equals r)
  | .atom a => .error (.invalidArgument (.notAList a.kind))

end RadarQuery
