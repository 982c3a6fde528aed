import RadarQuery.Decimal
import RadarQuery.Eval.Error

/-!
Arithmetic on two values. Integers are exact: a result outside 64 bits is an
error, and only a division with a remainder gives a float. Floats follow double
precision. An integer meets a float in scaled decimals where both have one and
the result fits, otherwise as doubles. Texts can be joined by addition.
-/

namespace RadarQuery.Arithmetic

/-- The exact result on integers; a quotient is cut off at the point. -/
def onInts : Arithmetic → Int → Int → Int
  | add, a, b => a + b
  | subtract, a, b => a - b
  | multiply, a, b => a * b
  | divide, a, b => a.tdiv b

def onDoubles : Arithmetic → Double → Double → Double
  | add, x, y => x.add y
  | subtract, x, y => x.sub y
  | multiply, x, y => x.mul y
  | divide, x, y => x.div y

/-- None for a result that does not fit. -/
def onDecimals : Arithmetic → Decimal → Decimal → Option Decimal
  | add, a, b => a.add b
  | subtract, a, b => a.sub b
  | multiply, a, b => a.mul b
  | divide, a, b => a.div b

def integers (operation : Arithmetic) (a b : Int64) : Except EvalError Expr :=
  let m := a.toInt
  let n := b.toInt
  if operation = divide ∧ n = 0 then .error .divisionByZero
  else if operation = divide ∧ m.tmod n ≠ 0 then
    .ok (.float ((Double.ofInt m).div (Double.ofInt n)))
  else
    match Integer.narrow? (operation.onInts m n) with
    | some result => .ok (.integer result)
    | none => .error (.overflow operation)

def floats (operation : Arithmetic) (x y : Double) : Except EvalError Expr :=
  if operation = divide ∧ y.isZero then .error .divisionByZero
  else .ok (.float (operation.onDoubles x y))

/-- An integer with a float: the operands as decimals, if they have them, and as doubles. -/
def mixed (operation : Arithmetic) (a b : Option Decimal) (x y : Double) : Except EvalError Expr :=
  if operation = divide ∧ y.isZero then .error .divisionByZero
  else
    match a, b with
    | some a, some b =>
      match operation.onDecimals a b with
      | some result => .ok (.float result.toDouble)
      | none => floats operation x y
    | _, _ => floats operation x y

def apply (operation : Arithmetic) : Expr → Expr → Except EvalError Expr
  | .integer a, .integer b => operation.integers a b
  | .float x, .float y => operation.floats x y
  | .integer a, .float y =>
    operation.mixed (some (.ofInteger a)) (Decimal.ofDouble y) (.ofInt a.toInt) y
  | .float x, .integer b =>
    operation.mixed (Decimal.ofDouble x) (some (.ofInteger b)) x (.ofInt b.toInt)
  | .text s, .text t =>
    if operation = add then .ok (.text (s ++ t))
    else .error (.typeError (.arithmetic operation .text .text))
  | a, b => .error (.typeError (.arithmetic operation a.kind b.kind))

end RadarQuery.Arithmetic
