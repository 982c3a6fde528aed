import RadarQuery.Eval.Error
import RadarQuery.Metadata.Traversal

/-!
Attribute references. A reference is a path and the type its values are read as.
A plain path refers to every attribute whose own path ends with its names. A
path that names a source attribute and, after a colon, a key refers to the value
of that key in the record that the attribute holds.
-/

namespace RadarQuery

/-- The value read as a type. Dates and times are checked and give their canonical text. -/
def ScalarType.read? : ScalarType → Scalar → Option Expr
  | string, v => some (.text v.render)
  | long, v => v.long?.map .integer
  | double, v => v.double?.map .float
  | bool, v => v.bool?.map .boolean
  | date, v => v.date?.map fun d => .text (String.ofList d.chars)
  | time, v => v.time?.map fun t => .text (String.ofList t.chars)

def ScalarType.coerce (wanted : ScalarType) (v : Scalar) : Except EvalError Expr :=
  match wanted.read? v with
  | some e => .ok e
  | none => .error (.typeError (.attributeValue v wanted))

def ScalarType.ofName (name : String) : Except EvalError ScalarType :=
  match ofName? name with
  | some type => .ok type
  | none => .error (.configuration (.unknownAttributeType name))

namespace Metadata

def dropStart? : List Char → List Char → Option (List Char)
  | [], cs => some cs
  | _ :: _, [] => none
  | s :: start, c :: cs => if s = c then dropStart? start cs else none

def sourceAttributes : List String :=
  ["what/source", "_bdb/source"]

/-- The source attribute and the key that a path names, slashes in front left out. -/
def sourceKey? (path : String) : Option (String × String) :=
  let cs := path.toList.dropWhile (· == '/')
  sourceAttributes.findSome? fun holder =>
    (dropStart? (holder.toList ++ [':']) cs).map fun key => (holder, String.ofList key)

def resolveKey (m : Metadata) (holder key : String) (wanted : ScalarType) :
    Except EvalError (List Expr) :=
  match m.text? holder with
  | none => .ok []
  | some text =>
    match Source.parse text with
    | .error cause => .error (.invalidArgument (.malformedSource holder cause))
    | .ok source =>
      match source.get? key with
      | none => .ok []
      | some value => (wanted.coerce (.text value)).map fun e => [e]

def resolveSuffix (m : Metadata) (names : List String) (wanted : ScalarType) :
    Except EvalError (List Expr) :=
  if names.isEmpty then .ok []
  else
    (m.attributes.filter fun (id, _) => names.isSuffixOf (m.names id)).mapM fun (_, value) =>
      wanted.coerce value

/-- All values that a path refers to. A path without names refers to nothing. -/
def resolve (m : Metadata) (path : String) (wanted : ScalarType) : Except EvalError (List Expr) :=
  match sourceKey? path with
  | some (holder, key) => m.resolveKey holder key wanted
  | none => m.resolveSuffix (Text.pathNames path) wanted

def resolveNamed (m : Metadata) (path type : String) : Except EvalError (List Expr) :=
  (ScalarType.ofName type).bind (m.resolve path)

end Metadata

end RadarQuery
