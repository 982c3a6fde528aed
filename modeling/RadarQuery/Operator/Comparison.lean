import RadarQuery.Eval.Error
import RadarQuery.Expr.Equality
import RadarQuery.Text.Glob

/-!
Comparison of two values. Numbers, texts and truth values are ordered among
their own kind; two integers are compared exactly, an integer and a float as
doubles. An undefined number is unordered. Equality never fails, order does
between kinds that have none.
-/

namespace RadarQuery

def textOrder (s t : String) : Ordering :=
  if s < t then .lt else if s = t then .eq else .gt

/-- How two values compare, none when one of them is an undefined number. -/
def ordering : Expr → Expr → Except EvalError (Option Ordering)
  | .integer m, .integer n => .ok (some (compare m.toInt n.toInt))
  | .integer m, .float y => .ok ((Double.ofInt m.toInt).order y)
  | .float x, .integer n => .ok (x.order (Double.ofInt n.toInt))
  | .float x, .float y => .ok (x.order y)
  | .text s, .text t => .ok (some (textOrder s t))
  | .boolean a, .boolean b => .ok (some (compare a b))
  | a, b => .error (.typeError (.comparison a.kind b.kind))

def Comparison.apply (comparison : Comparison) (a b : Expr) : Except EvalError Bool :=
  match comparison with
  | eq => .ok (a.equals b)
  | ne => .ok !(a.equals b)
  | _ => (ordering a b).map fun o => o.any comparison.admits

/-- Patterns are assumed to stay within the size limit of a compiled expression. The
argument error for a pattern beyond it is not modelled. -/
def like : Expr → Expr → Except EvalError Bool
  | .text value, .text pattern => .ok (Text.Glob.accepts pattern.toList value.toList)
  | a, b => .error (.typeError (.pattern a.kind b.kind))

end RadarQuery
