/-!
The operators on two values: four of arithmetic and six of comparison.
-/

namespace RadarQuery

inductive Arithmetic where
  | add
  | subtract
  | multiply
  | divide
deriving DecidableEq

def Arithmetic.verb : Arithmetic → String
  | add => "add"
  | subtract => "subtract"
  | multiply => "multiply"
  | divide => "divide"

inductive Comparison where
  | eq
  | ne
  | lt
  | le
  | gt
  | ge
deriving DecidableEq

def Comparison.admits : Comparison → Ordering → Bool
  | eq, o => o == .eq
  | ne, o => o != .eq
  | lt, o => o == .lt
  | le, o => o != .gt
  | gt, o => o == .gt
  | ge, o => o != .lt

end RadarQuery
