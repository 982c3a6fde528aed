import RadarQuery.Double.Rounding

/-!
Query expressions. An expression is an atom, that is a literal or a symbol, or a
list of expressions. Filters, projections and orderings all have this shape. A
list headed by a symbol is a call when it is evaluated; every other list is data.
-/

namespace RadarQuery

inductive Atom where
  | integer (value : Int64)
  | float (value : Double)
  | boolean (value : Bool)
  | text (value : String)
  | symbol (name : String)
deriving DecidableEq

inductive Expr where
  | atom (value : Atom)
  | list (items : List Expr)

inductive Kind where
  | list
  | integer
  | float
  | boolean
  | text
  | symbol
deriving DecidableEq

def Kind.name : Kind → String
  | list => "list"
  | integer => "integer"
  | float => "float"
  | boolean => "boolean"
  | text => "text"
  | symbol => "symbol"

def Atom.kind : Atom → Kind
  | integer _ => .integer
  | float _ => .float
  | boolean _ => .boolean
  | text _ => .text
  | symbol _ => .symbol

inductive ExprError where
  | outOfRange (index length : Nat)
  | absentText
deriving DecidableEq

def ExprError.message : ExprError → String
  | outOfRange index length => s!"index {index} out of range for expression of length {length}"
  | absentText => "cannot build a text literal from an absent value"

namespace Expr

@[match_pattern] abbrev integer (n : Int64) : Expr := .atom (.integer n)
@[match_pattern] abbrev float (x : Double) : Expr := .atom (.float x)
@[match_pattern] abbrev boolean (b : Bool) : Expr := .atom (.boolean b)
@[match_pattern] abbrev text (s : String) : Expr := .atom (.text s)
@[match_pattern] abbrev symbol (name : String) : Expr := .atom (.symbol name)

def kind : Expr → Kind
  | atom a => a.kind
  | list _ => .list

def integer? : Expr → Option Int64
  | integer n => some n
  | _ => none

def float? : Expr → Option Double
  | float x => some x
  | integer n => some (.ofInt n.toInt)
  | _ => none

def boolean? : Expr → Option Bool
  | boolean b => some b
  | _ => none

def text? : Expr → Option String
  | text s => some s
  | _ => none

def symbol? : Expr → Option String
  | symbol name => some name
  | _ => none

def items? : Expr → Option (List Expr)
  | list items => some items
  | _ => none

def items : Expr → List Expr
  | list items => items
  | atom _ => []

def length (e : Expr) : Nat :=
  e.items.length

def get (e : Expr) (index : Nat) : Except ExprError Expr :=
  match e.items[index]? with
  | some item => .ok item
  | none => .error (.outOfRange index e.length)

def popFront : Expr → Except ExprError (Expr × Expr)
  | list (first :: rest) => .ok (first, list rest)
  | _ => .error (.outOfRange 0 0)

/-- The truth value of a result. The empty list, zero, the empty text and false
are false, everything else is true. -/
def isTruthy : Expr → Bool
  | list items => !items.isEmpty
  | integer n => n != 0
  | float x => !x.isZero
  | boolean b => b
  | text s => !s.isEmpty
  | symbol _ => true

def ofText? : Option String → Except ExprError Expr
  | some s => .ok (text s)
  | none => .error .absentText

end Expr

end RadarQuery
