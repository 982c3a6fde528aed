import RadarQuery.Calendar.Time
import RadarQuery.Double.Layout
import RadarQuery.Double.Read

/-!
The scalar that an attribute holds: text, a long integer or a double. Dates,
times and truth values are stored as text and are read from it when they are
asked for. Blanks around the text do not count.
-/

namespace RadarQuery

inductive Scalar where
  | text (value : String)
  | long (value : Int64)
  | double (value : Double)
deriving DecidableEq

inductive ScalarType where
  | string
  | long
  | double
  | bool
  | date
  | time
deriving DecidableEq

namespace ScalarType

def name : ScalarType → String
  | string => "string"
  | long => "long"
  | double => "double"
  | bool => "bool"
  | date => "date"
  | time => "time"

def ofName? : String → Option ScalarType
  | "string" => some string
  | "long" => some long
  | "double" => some double
  | "bool" | "boolean" => some bool
  | "date" => some date
  | "time" => some time
  | _ => none

end ScalarType

namespace Scalar

def ofDate (d : Calendar.Date) : Scalar :=
  .text (String.ofList d.chars)

def ofTime (t : Calendar.Time) : Scalar :=
  .text (String.ofList t.chars)

def form : Scalar → String
  | text _ => "text"
  | long _ => "long"
  | double _ => "double"

def chars : Scalar → List Char
  | text s => s.toList
  | long n => Integer.chars n.toInt
  | double x => x.plain

def render (v : Scalar) : String :=
  String.ofList v.chars

def text? : Scalar → Option String
  | text s => some s
  | _ => none

/-- As an integer; a double is never narrowed. -/
def long? : Scalar → Option Int64
  | text s => Integer.read (Text.trim s.toList)
  | long n => some n
  | double _ => none

def double? : Scalar → Option Double
  | text s => Double.read (Text.trim s.toList)
  | long n => some (.ofInt n.toInt)
  | double x => some x

/-- As a truth value: the words True and False, capitalised or not, or an integer,
of which only zero is false. -/
def bool? : Scalar → Option Bool
  | text s =>
    let word := Text.trim s.toList
    if word = ['T', 'r', 'u', 'e'] ∨ word = ['t', 'r', 'u', 'e'] then some true
    else if word = ['F', 'a', 'l', 's', 'e'] ∨ word = ['f', 'a', 'l', 's', 'e'] then some false
    else none
  | long n => some (n != 0)
  | double _ => none

def date? (v : Scalar) : Option Calendar.Date :=
  v.text?.bind fun s => Calendar.Date.read (Text.trim s.toList)

def time? (v : Scalar) : Option Calendar.Time :=
  v.text?.bind fun s => Calendar.Time.read (Text.trim s.toList)

end Scalar

end RadarQuery
