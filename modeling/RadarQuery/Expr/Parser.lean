import RadarQuery.Token.Lexer

/-!
The parser. It reads one token ahead and keeps the lists that are still open,
the innermost first. A token either completes an element of the innermost open
list, or opens a list, or closes one; with no list open, a complete element is
the expression. The input has to end after it.
-/

namespace RadarQuery

inductive ParseError where
  | lex (cause : LexError)
  | unbalancedClose (position : Nat)
  | unexpectedEnd
  | trailingInput (position : Nat)
deriving DecidableEq

def ParseError.message : ParseError → String
  | lex cause => cause.message
  | unbalancedClose position => s!"unexpected ')' at position {position}"
  | unexpectedEnd => "unexpected end of input, expected ')'"
  | trailingInput position => s!"trailing input after expression at position {position}"

/-- A lexer and the token read ahead of it, none at the end of the input. -/
structure Parser where
  lexer : Lexer
  lookahead : Option Token

namespace Parser

/-- What a token leads to: the whole expression, or the open lists, innermost first,
with the elements of each in reverse. -/
inductive Step where
  | done (e : Expr)
  | more (opened : List (List Expr))

def place (e : Expr) : List (List Expr) → Step
  | [] => .done e
  | items :: outer => .more ((e :: items) :: outer)

/-- None for a closing parenthesis where no list is open. -/
def shift : Token → List (List Expr) → Option Step
  | .atom a, opened => some (place (.atom a) opened)
  | .opening, opened => some (.more ([] :: opened))
  | .closing, [] => none
  | .closing, items :: outer => some (place (.list items.reverse) outer)

/-- Reads on until an expression is complete. After an error the parser holds no
token, except that the parenthesis that closed a list stays when the token behind it
cannot be read. -/
def readFrom (lexer : Lexer) (lookahead : Option Token) (opened : List (List Expr)) :
    Except ParseError Expr × Parser :=
  match lookahead with
  | none => (.error .unexpectedEnd, ⟨lexer, none⟩)
  | some token =>
    match shift token opened with
    | none => (.error (.unbalancedClose lexer.position), ⟨lexer, none⟩)
    | some step =>
      match _h : lexer.next with
      | (.error cause, after) =>
        (.error (.lex cause), ⟨after, if token = .closing then some .closing else none⟩)
      | (.ok ahead, after) =>
        match step with
        | .done e => (.ok e, ⟨after, ahead⟩)
        | .more opened => readFrom after ahead opened
termination_by lexer.rest.length + (if lookahead.isSome then 1 else 0)
decreasing_by
  cases ahead with
  | none => simp [Lexer.rest_of_next_none _h]
  | some _ =>
    have hlt := Lexer.length_next_lt (l := lexer) (by simp [_h])
    simp only [_h] at hlt
    simp only [Option.isSome_some, if_true]
    omega

def parse (p : Parser) : Except ParseError Expr × Parser :=
  match readFrom p.lexer p.lookahead [] with
  | (.error cause, after) => (.error cause, after)
  | (.ok e, after) =>
    if after.lookahead.isNone then (.ok e, after)
    else (.error (.trailingInput after.lexer.position), after)

def ofLexer (lexer : Lexer) : Except ParseError Parser :=
  match lexer.next with
  | (.error cause, _) => .error (.lex cause)
  | (.ok ahead, after) => .ok ⟨after, ahead⟩

end Parser

def Expr.parse (text : String) : Except ParseError Expr :=
  (Parser.ofLexer (Lexer.ofText text)).bind fun p => p.parse.1

end RadarQuery
