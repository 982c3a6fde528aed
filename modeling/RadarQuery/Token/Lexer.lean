import RadarQuery.Double.Read
import RadarQuery.Text.Blank
import RadarQuery.Text.Quoted
import RadarQuery.Token.Basic

/-!
The lexer. A lexer is what is left of an input together with the number of
characters before it. The next token starts after blanks and is a parenthesis, a
quoted text, or a word: the longest run of characters that are neither blank nor
a parenthesis nor a quote. Every token that is read makes the input shorter.
-/

namespace RadarQuery

/-- Why no token could be read. Positions count characters from zero. -/
inductive LexError where
  | unterminatedText (start : Nat)
  | invalidEscape (letter : Char) (position : Nat)
  | invalidNumber (word : String) (position : Nat)
deriving DecidableEq

def LexError.message : LexError → String
  | unterminatedText start => s!"unterminated text literal starting at position {start}"
  | invalidEscape letter position =>
    s!"invalid escape sequence '\\{letter}' at position {position}"
  | invalidNumber word position => s!"invalid number '{word}' at position {position}"

structure Lexer where
  position : Nat
  rest : List Char

namespace Lexer

def ofText (text : String) : Lexer :=
  ⟨0, text.toList⟩

def isDelimiter (c : Char) : Bool :=
  Text.isBlank c || c == '(' || c == ')' || c == '"'

/-- A word with a digit in front or after one sign is a number: a float if it has a
point or an exponent letter, otherwise an integer. Any other word is a truth value
or a symbol. -/
def classify (word : List Char) : Option Atom :=
  let unsigned := (Integer.takeSign word).2
  if word = ['t', 'r', 'u', 'e'] then some (.boolean true)
  else if word = ['f', 'a', 'l', 's', 'e'] then some (.boolean false)
  else if (unsigned.head?.any Char.isDigit) = false then some (.symbol (String.ofList word))
  else if unsigned.any (fun c => c == '.' || c == 'e' || c == 'E') then
    (Double.read word).map .float
  else (Integer.read word).map .integer

/-- Whether a name that is written bare is read back as that symbol. -/
def readsAsSymbol (name : String) : Bool :=
  let word := name.toList
  !word.isEmpty && !word.any isDelimiter &&
    match classify word with
    | some (.symbol _) => true
    | _ => false

def readText (start : Nat) (cs : List Char) : Except LexError (Option Token) × Lexer :=
  match Text.Quoted.read cs with
  | .closed text used rest =>
    (.ok (some (.atom (.text (String.ofList text)))), ⟨start + 1 + used, rest⟩)
  | .badEscape letter used rest =>
    (.error (.invalidEscape letter (start + 1 + used)), ⟨start + 1 + used, rest⟩)
  | .unclosed used => (.error (.unterminatedText start), ⟨start + 1 + used, []⟩)

def readWord (start : Nat) (cs : List Char) : Except LexError (Option Token) × Lexer :=
  let word := cs.takeWhile (!isDelimiter ·)
  let after : Lexer := ⟨start + word.length, cs.dropWhile (!isDelimiter ·)⟩
  match classify word with
  | some a => (.ok (some (.atom a)), after)
  | none => (.error (.invalidNumber (String.ofList word) start), after)

/-- The next token, none at the end of the input, and the lexer after it. After an
error the lexer stands where the error was found. -/
def next (l : Lexer) : Except LexError (Option Token) × Lexer :=
  let start := l.position + (l.rest.takeWhile Text.isBlank).length
  match l.rest.dropWhile Text.isBlank with
  | [] => (.ok none, ⟨start, []⟩)
  | c :: cs =>
    if c = '(' then (.ok (some .opening), ⟨start + 1, cs⟩)
    else if c = ')' then (.ok (some .closing), ⟨start + 1, cs⟩)
    else if c = '"' then readText start cs
    else readWord start (c :: cs)

theorem length_readText_le (start : Nat) (cs : List Char) :
    (readText start cs).2.rest.length ≤ cs.length := by
  have hsize := Text.Quoted.size_read cs
  unfold readText
  cases hread : Text.Quoted.read cs <;>
    simp only [hread, Text.Quoted.Reading.size] at hsize <;>
    simp only [List.length_nil] <;> omega

theorem length_readWord_lt (start : Nat) {c : Char} (cs : List Char) (hc : isDelimiter c = false) :
    (readWord start (c :: cs)).2.rest.length < (c :: cs).length := by
  have hdrop : ((c :: cs).dropWhile (!isDelimiter ·)).length ≤ cs.length := by
    simpa [hc] using (List.dropWhile_suffix (l := cs) (!isDelimiter ·)).length_le
  simp only [readWord, List.length_cons]
  split <;> simp only <;> omega

theorem readText_ne_none (start : Nat) (cs : List Char) : (readText start cs).1 ≠ .ok none := by
  unfold readText
  split <;> simp

theorem readWord_ne_none (start : Nat) (cs : List Char) : (readWord start cs).1 ≠ .ok none := by
  simp only [readWord]
  split <;> simp

/-- Without a token the input has been read to its end. -/
theorem rest_of_next_none {l after : Lexer} (h : l.next = (.ok none, after)) : after.rest = [] := by
  unfold next at h
  cases hrest : l.rest.dropWhile Text.isBlank with
  | nil =>
    simp only [hrest, Prod.mk.injEq, true_and] at h
    exact h ▸ rfl
  | cons c cs =>
    simp only [hrest] at h
    split at h
    · simp at h
    · split at h
      · simp at h
      · split at h
        · exact absurd (congrArg Prod.fst h) (readText_ne_none _ _)
        · exact absurd (congrArg Prod.fst h) (readWord_ne_none _ _)

/-- What is left after a call is shorter, unless nothing but blanks was left before it. -/
theorem length_next_lt {l : Lexer} (h : l.next.1 ≠ .ok none) :
    l.next.2.rest.length < l.rest.length := by
  have hdrop := (List.dropWhile_suffix (l := l.rest) Text.isBlank).length_le
  have hhead := List.head?_dropWhile_not Text.isBlank l.rest
  unfold next at h ⊢
  cases hrest : l.rest.dropWhile Text.isBlank with
  | nil => simp [hrest] at h
  | cons c cs =>
    simp only [hrest, List.length_cons, List.head?_cons] at hdrop hhead ⊢
    split
    · exact hdrop
    · split
      · exact hdrop
      · split
        · have htext := length_readText_le
            (l.position + (l.rest.takeWhile Text.isBlank).length) cs
          omega
        · have hword := length_readWord_lt
            (l.position + (l.rest.takeWhile Text.isBlank).length) (c := c) cs
            (by simp_all [isDelimiter])
          simp only [List.length_cons] at hword
          omega

end Lexer

end RadarQuery
