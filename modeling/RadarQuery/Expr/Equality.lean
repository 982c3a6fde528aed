import RadarQuery.Expr.Basic

/-!
Equality of expressions. Structural equality compares expressions of the same
shape atom by atom; floats are compared as numbers, so the two zeros are equal
and an undefined number equals nothing, itself included. Value equality also
compares an integer with a float.
-/

namespace RadarQuery

def Atom.same : Atom → Atom → Bool
  | integer m, integer n => m == n
  | float x, float y => x.equals y
  | boolean a, boolean b => a == b
  | text s, text t => s == t
  | symbol s, symbol t => s == t
  | _, _ => false

namespace Expr

mutual

def same : Expr → Expr → Bool
  | atom a, atom b => a.same b
  | list as, list bs => sameItems as bs
  | _, _ => false

def sameItems : List Expr → List Expr → Bool
  | [], [] => true
  | a :: as, b :: bs => same a b && sameItems as bs
  | _, _ => false

end

/-- Equality of values: an integer and a float are compared as doubles, everything
else structurally. -/
def equals : Expr → Expr → Bool
  | integer n, float x => (Double.ofInt n.toInt).equals x
  | float x, integer n => (Double.ofInt n.toInt).equals x
  | a, b => a.same b

end Expr

end RadarQuery
