import RadarQuery.Double.Layout
import RadarQuery.Expr.Basic
import RadarQuery.Integer
import RadarQuery.Text.Quoted

/-!
The canonical text of an expression. A list is written in parentheses with one
space between its elements, text is quoted, and a float always has a point or an
exponent. Symbols are written bare.
-/

namespace RadarQuery

def Atom.chars : Atom → List Char
  | integer n => Integer.chars n.toInt
  | float x => x.literal
  | boolean true => ['t', 'r', 'u', 'e']
  | boolean false => ['f', 'a', 'l', 's', 'e']
  | text s => Text.Quoted.encode s.toList
  | symbol name => name.toList

namespace Expr

mutual

def chars : Expr → List Char
  | atom a => a.chars
  | list [] => ['(', ')']
  | list (first :: rest) => '(' :: (chars first ++ (charsAfter rest ++ [')']))

def charsAfter : List Expr → List Char
  | [] => []
  | e :: es => ' ' :: (chars e ++ charsAfter es)

end

def render (e : Expr) : String :=
  String.ofList e.chars

end Expr

end RadarQuery
