/-!
Glob patterns. A star stands for any run of characters, a question mark for one
character, and every other character for itself; a pattern has to account for
the whole text. A text is read from its end, keeping for every suffix of the
pattern, the whole pattern first, whether that suffix accepts what has been
read, so the work is the product of the two lengths.
-/

namespace RadarQuery.Text.Glob

def emptyRow : List Char → List Bool
  | [] => [true]
  | p :: ps =>
    let row := emptyRow ps
    (p == '*' && row.headD false) :: row

/-- The row for a text that `c` has been put in front of. -/
def nextRow (c : Char) : List Char → List Bool → List Bool
  | p :: ps, accepted :: row =>
    let later := nextRow c ps row
    let here :=
      if p = '*' then accepted || later.headD false
      else (p == '?' || p == c) && row.headD false
    here :: later
  | _, _ => [false]

def accepts (pattern text : List Char) : Bool :=
  (text.foldr (nextRow · pattern) (emptyRow pattern)).headD false

end RadarQuery.Text.Glob
