/-!
Quoted text. Inside quotes a backslash introduces an escape: a quote, a
backslash, a line feed, a tab and a carriage return are written as two
characters, every other character stands for itself. Reading starts after the
opening quote and ends with the first quote that is not escaped.
-/

namespace RadarQuery.Text.Quoted

def escape : Char → List Char
  | '"' => ['\\', '"']
  | '\\' => ['\\', '\\']
  | '\n' => ['\\', 'n']
  | '\t' => ['\\', 't']
  | '\r' => ['\\', 'r']
  | c => [c]

def unescape : Char → Option Char
  | 'n' => some '\n'
  | 't' => some '\t'
  | 'r' => some '\r'
  | '"' => some '"'
  | '\\' => some '\\'
  | _ => none

def encode (text : List Char) : List Char :=
  '"' :: text.flatMap escape ++ ['"']

/-- What is found after an opening quote, with the number of characters gone
through. An escape letter that stands for nothing is left unread. -/
inductive Reading where
  | closed (text : List Char) (used : Nat) (rest : List Char)
  | badEscape (letter : Char) (used : Nat) (rest : List Char)
  | unclosed (used : Nat)
deriving DecidableEq

def Reading.after (c : Char) (width : Nat) : Reading → Reading
  | closed text used rest => closed (c :: text) (used + width) rest
  | badEscape letter used rest => badEscape letter (used + width) rest
  | unclosed used => unclosed (used + width)

def read : List Char → Reading
  | [] => .unclosed 0
  | '"' :: rest => .closed [] 1 rest
  | ['\\'] => .unclosed 1
  | '\\' :: letter :: rest =>
    match unescape letter with
    | some c => (read rest).after c 2
    | none => .badEscape letter 1 (letter :: rest)
  | c :: rest => (read rest).after c 1

def Reading.size : Reading → Nat
  | closed _ used rest => used + rest.length
  | badEscape _ used rest => used + rest.length
  | unclosed used => used

theorem size_after (c : Char) (width : Nat) (r : Reading) :
    (r.after c width).size = r.size + width := by
  cases r <;> simp only [Reading.after, Reading.size] <;> omega

theorem size_read (cs : List Char) : (read cs).size = cs.length := by
  fun_induction read cs with
  | case1 => rfl
  | case2 rest => simp only [Reading.size, List.length_cons]; omega
  | case3 => rfl
  | case4 letter rest c _ ih => simp [size_after, ih]
  | case5 letter rest _ => simp only [Reading.size, List.length_cons]; omega
  | case6 c rest _ _ _ ih => simp [size_after, ih]

end RadarQuery.Text.Quoted
