import RadarQuery.Expr.Basic
import RadarQuery.Metadata.Scalar
import RadarQuery.Metadata.Source
import RadarQuery.Operator.Basic

/-!
Why an evaluation fails. Each error names its cause; the wording is in one
place. A type error is about what an operand is, an argument error about a value
of the right type, and a configuration error about the query itself.
-/

namespace RadarQuery

inductive TypeFault where
  | arithmetic (operation : Arithmetic) (left right : Kind)
  | comparison (left right : Kind)
  | pattern (left right : Kind)
  | integerArgument (procedure : String) (found : Kind)
  | symbolName (found : Kind)
  | attributePath (found : Kind)
  | attributeValue (value : Scalar) (wanted : ScalarType)
deriving DecidableEq

inductive ArgumentFault where
  | outOfRange (value : Int64) (procedure : String)
  | noSuchDate (year month day : Int64)
  | noSuchTime (hour minute second : Int64)
  | notAList (found : Kind)
  | malformedSource (holder : String) (cause : SourceError)
deriving DecidableEq

inductive ConfigurationFault where
  | attributeTypeNotText (found : Kind)
  | unknownAttributeType (name : String)
deriving DecidableEq

inductive EvalError where
  | typeError (fault : TypeFault)
  | arity (procedure : String) (expected found : Nat)
  | unknownProcedure (name : String)
  | invalidArgument (fault : ArgumentFault)
  | divisionByZero
  | overflow (operation : Arithmetic)
  | configuration (fault : ConfigurationFault)
deriving DecidableEq

def TypeFault.message : TypeFault → String
  | arithmetic operation left right => "cannot " ++ operation.verb ++ " " ++ both left right
  | comparison left right => "cannot compare " ++ both left right
  | pattern left right => "cannot match " ++ both left right
  | integerArgument procedure found =>
    "'" ++ procedure ++ "' expects integer arguments, got " ++ found.name
  | symbolName found => "'symbol' expects text, got " ++ found.name
  | attributePath found => "'attr' expects a text path, got " ++ found.name
  | attributeValue value wanted =>
    "cannot read " ++ value.form ++ " attribute value '" ++ value.render ++ "' as " ++ wanted.name
where
  both (left right : Kind) : String := left.name ++ " and " ++ right.name

def ArgumentFault.message : ArgumentFault → String
  | outOfRange value procedure => number value ++ " out of range for '" ++ procedure ++ "'"
  | noSuchDate year month day => "invalid date " ++ numbers year month day
  | noSuchTime hour minute second => "invalid time " ++ numbers hour minute second
  | notAList found => "right-hand side of 'in' must be a list, got " ++ found.name
  | malformedSource holder cause => holder ++ ": " ++ cause.message
where
  number (n : Int64) : String := String.ofList (Integer.chars n.toInt)
  numbers (a b c : Int64) : String := number a ++ " " ++ number b ++ " " ++ number c

def ConfigurationFault.message : ConfigurationFault → String
  | attributeTypeNotText found => "attribute type must be text, got " ++ found.name
  | unknownAttributeType name => "unknown attribute type '" ++ name ++ "'"

def EvalError.message : EvalError → String
  | typeError fault => "Type error: " ++ fault.message
  | arity procedure expected found =>
    s!"Arity error: '{procedure}' expects {expected} argument(s), got {found}"
  | unknownProcedure name => "Unknown procedure: " ++ name
  | invalidArgument fault => "Invalid argument: " ++ fault.message
  | divisionByZero => "Division by zero"
  | overflow operation => "Integer overflow in " ++ operation.verb
  | configuration fault => "Configuration error: " ++ fault.message

end RadarQuery
