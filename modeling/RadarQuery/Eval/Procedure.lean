import RadarQuery.Metadata.Reference
import RadarQuery.Operator.Arithmetic
import RadarQuery.Operator.Comparison
import RadarQuery.Operator.Lifting

/-!
Procedures. The set of names that can be called is closed. All procedures have a
fixed number of arguments except the one that makes a list. Attribute lookup
exists only with a metadata tree.
-/

namespace RadarQuery

inductive Procedure where
  | arithmetic (operation : Arithmetic)
  | comparison (relation : Comparison)
  | and
  | or
  | not
  | like
  | member
  | symbol
  | list
  | date
  | time
  | datetime
  | attr (tree : Metadata)

namespace Procedure

def name : Procedure → String
  | arithmetic .add => "+"
  | arithmetic .subtract => "-"
  | arithmetic .multiply => "*"
  | arithmetic .divide => "/"
  | comparison .eq => "="
  | comparison .ne => "!="
  | comparison .lt => "<"
  | comparison .le => "<="
  | comparison .gt => ">"
  | comparison .ge => ">="
  | and => "and"
  | or => "or"
  | not => "not"
  | like => "like"
  | member => "in"
  | symbol => "symbol"
  | list => "list"
  | date => "date"
  | time => "time"
  | datetime => "datetime"
  | attr _ => "attr"

def lookup (name : String) (tree : Option Metadata) : Option Procedure :=
  match name with
  | "+" => some (arithmetic .add)
  | "-" => some (arithmetic .subtract)
  | "*" => some (arithmetic .multiply)
  | "/" => some (arithmetic .divide)
  | "=" => some (comparison .eq)
  | "!=" => some (comparison .ne)
  | "<" => some (comparison .lt)
  | "<=" => some (comparison .le)
  | ">" => some (comparison .gt)
  | ">=" => some (comparison .ge)
  | "and" => some and
  | "or" => some or
  | "not" => some not
  | "like" => some like
  | "in" => some member
  | "symbol" => some symbol
  | "list" => some list
  | "date" => some date
  | "time" => some time
  | "datetime" => some datetime
  | "attr" => tree.map attr
  | _ => none

/-- The number of arguments, none if any number will do. -/
def arity : Procedure → Option Nat
  | not | symbol => some 1
  | list => none
  | date | time => some 3
  | datetime => some 6
  | _ => some 2

/-- An integer argument in the range from `low` to below `high`. -/
def integerArg (p : Procedure) (low high : Int) (e : Expr) : Except EvalError Int64 :=
  match e.integer? with
  | none => .error (.typeError (.integerArgument p.name e.kind))
  | some n =>
    if low ≤ n.toInt ∧ n.toInt < high then .ok n
    else .error (.invalidArgument (.outOfRange n p.name))

def yearArg (p : Procedure) (e : Expr) : Except EvalError Int64 :=
  p.integerArg (-Int.pow 2 31) (Int.pow 2 31) e

def fieldArg (p : Procedure) (e : Expr) : Except EvalError Int64 :=
  p.integerArg 0 (Int.pow 2 32) e

def dateArg (p : Procedure) (year month day : Expr) : Except EvalError Calendar.Date := do
  let y ← p.yearArg year
  let m ← p.fieldArg month
  let d ← p.fieldArg day
  match Calendar.Date.ofFields? y.toInt m.toInt.toNat d.toInt.toNat with
  | some value => .ok value
  | none => .error (.invalidArgument (.noSuchDate y m d))

def timeArg (p : Procedure) (hour minute second : Expr) : Except EvalError Calendar.Time := do
  let h ← p.fieldArg hour
  let m ← p.fieldArg minute
  let s ← p.fieldArg second
  match Calendar.Time.ofClock? h.toInt.toNat m.toInt.toNat s.toInt.toNat with
  | some value => .ok value
  | none => .error (.invalidArgument (.noSuchTime h m s))

def values (tree : Metadata) (path type : Expr) : Except EvalError Expr :=
  match path.text? with
  | none => .error (.typeError (.attributePath path.kind))
  | some path =>
    match type.text?.or type.symbol? with
    | none => .error (.configuration (.attributeTypeNotText type.kind))
    | some name => (tree.resolveNamed path name).map .list

def call (p : Procedure) (args : List Expr) : Except EvalError Expr :=
  match p, args with
  | arithmetic operation, [l, r] => cartesian operation.apply l r
  | comparison relation, [l, r] => (existential relation.apply l r).map .boolean
  | like, [l, r] => (existential RadarQuery.like l r).map .boolean
  | and, [l, r] => .ok (.boolean (l.isTruthy && r.isTruthy))
  | or, [l, r] => .ok (.boolean (l.isTruthy || r.isTruthy))
  | not, [e] => .ok (.boolean !e.isTruthy)
  | member, [l, r] => (isMember l r).map .boolean
  | symbol, [e] =>
    match e.text?.or e.symbol? with
    | some name => .ok (.symbol name)
    | none => .error (.typeError (.symbolName e.kind))
  | list, args => .ok (.list args)
  | date, [y, m, d] => (p.dateArg y m d).map fun value => .text (String.ofList value.chars)
  | time, [h, m, s] => (p.timeArg h m s).map fun value => .text (String.ofList value.chars)
  | datetime, [y, mo, d, h, mi, s] => do
    let day ← p.dateArg y mo d
    let clock ← p.timeArg h mi s
    .ok (.text (String.ofList (day.chars ++ clock.chars)))
  | attr tree, [path, type] => values tree path type
  | p, args => .error (.arity p.name (p.arity.getD 0) args.length)

end Procedure

end RadarQuery
