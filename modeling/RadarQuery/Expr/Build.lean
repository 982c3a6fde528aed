import RadarQuery.Calendar.Time
import RadarQuery.Expr.Basic

/-!
Construction of queries. Each function gives the call of the procedure it is
named for; nothing is evaluated. The markers for orderings and projections are
calls too, but no procedure answers to them: they tell a server what to return.
-/

namespace RadarQuery.Query

def call (name : String) (args : List Expr) : Expr :=
  .list (.symbol name :: args)

def attr (path type : String) : Expr :=
  call "attr" [.text path, .text type]

def add (l r : Expr) : Expr := call "+" [l, r]
def sub (l r : Expr) : Expr := call "-" [l, r]
def mul (l r : Expr) : Expr := call "*" [l, r]
def div (l r : Expr) : Expr := call "/" [l, r]

def eq (l r : Expr) : Expr := call "=" [l, r]
def ne (l r : Expr) : Expr := call "!=" [l, r]
def lt (l r : Expr) : Expr := call "<" [l, r]
def le (l r : Expr) : Expr := call "<=" [l, r]
def gt (l r : Expr) : Expr := call ">" [l, r]
def ge (l r : Expr) : Expr := call ">=" [l, r]

def and (l r : Expr) : Expr := call "and" [l, r]
def or (l r : Expr) : Expr := call "or" [l, r]
def not (e : Expr) : Expr := call "not" [e]

def like (value pattern : Expr) : Expr := call "like" [value, pattern]
def member (e items : Expr) : Expr := call "in" [e, items]

/-- The conjunction of all expressions, nested to the left; true for none. -/
def all : List Expr → Expr
  | [] => .boolean true
  | e :: es => es.foldl and e

def any : List Expr → Expr
  | [] => .boolean false
  | e :: es => es.foldl or e

private def number (n : Int) : Expr := .integer (.ofInt n)

def dateFields (d : Calendar.Date) : List Expr :=
  [number d.year, number d.month, number d.day]

/-- A leap second counts as the second before it. -/
def timeFields (t : Calendar.Time) : List Expr :=
  [number t.hour, number t.minute, number (min t.second 59)]

def date (d : Calendar.Date) : Expr := call "date" (dateFields d)
def time (t : Calendar.Time) : Expr := call "time" (timeFields t)

def datetime (d : Calendar.Date) (t : Calendar.Time) : Expr :=
  call "datetime" (dateFields d ++ timeFields t)

def asc (e : Expr) : Expr := call "asc" [e]
def desc (e : Expr) : Expr := call "desc" [e]
def count (e : Expr) : Expr := call "count" [e]
def sum (e : Expr) : Expr := call "sum" [e]
def min (e : Expr) : Expr := call "min" [e]
def max (e : Expr) : Expr := call "max" [e]

end RadarQuery.Query
