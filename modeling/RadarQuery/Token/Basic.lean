import RadarQuery.Expr.Basic

/-!
Tokens: the two parentheses and the atoms. An expression is the bracketing of
its tokens.
-/

namespace RadarQuery

inductive Token where
  | opening
  | closing
  | atom (value : Atom)
deriving DecidableEq

namespace Expr

mutual

def tokens : Expr → List Token
  | atom a => [.atom a]
  | list items => .opening :: (tokensOfItems items ++ [.closing])

def tokensOfItems : List Expr → List Token
  | [] => []
  | e :: es => tokens e ++ tokensOfItems es

end

end Expr

end RadarQuery
