import RadarQuery.Eval.Procedure

/-!
Evaluation. Literals and lone symbols stand for themselves. A list headed by a
symbol is a call: its arguments are evaluated from left to right, then the
procedure is looked up and applied. Any other list is evaluated element by
element. The first error is the result. A query matches a tree if its value
there is true.
-/

namespace RadarQuery

namespace Expr

mutual

def eval (tree : Option Metadata) : Expr → Except EvalError Expr
  | atom a => .ok (atom a)
  | list (symbol name :: args) => do
    let values ← evalItems tree args
    match Procedure.lookup name tree with
    | some procedure => procedure.call values
    | none => .error (.unknownProcedure name)
  | list items => do
    let values ← evalItems tree items
    .ok (list values)

def evalItems (tree : Option Metadata) : List Expr → Except EvalError (List Expr)
  | [] => .ok []
  | e :: es => do
    let value ← eval tree e
    let values ← evalItems tree es
    .ok (value :: values)

end

end Expr

namespace Metadata

def evaluate (m : Metadata) (query : Expr) : Except EvalError Expr :=
  query.eval (some m)

def isMatch (m : Metadata) (query : Expr) : Except EvalError Bool :=
  (m.evaluate query).map Expr.isTruthy

end Metadata

end RadarQuery
