import RadarQuery.Proofs.Double.Plain
import RadarQuery.Proofs.Metadata.Resolution
import RadarQuery.Proofs.Text.Fields

/-!
Scalars as text. Every attribute can be read as a string, and nothing is lost by it: an
attribute that holds this string, read as the type of the first one, has the same value.
Neither a long integer nor a double is written with blanks, so none are trimmed away.
-/

namespace RadarQuery

namespace Scalar

def storedType : Scalar → ScalarType
  | text _ => .string
  | long _ => .long
  | double _ => .double

def literal : Scalar → Expr
  | text s => .text s
  | long n => .integer n
  | double x => .float x

theorem long?_render (n : Int64) : (text (long n).render).long? = some n := by
  have hblank : ∀ c ∈ Integer.chars n.toInt, Text.isBlank c = false := by
    intro c hc
    rcases Integer.mem_chars hc with rfl | hdigit
    · decide
    · exact Text.isBlank_of_isDigit hdigit
  rw [long?, render, String.toList_ofList, chars, Text.trim_of_forall hblank, Integer.read_chars]

theorem double?_render (x : Double) : (text (double x).render).double? = some x := by
  rw [double?, render, String.toList_ofList, chars,
    Text.trim_of_forall fun _ => x.isBlank_of_mem_plain, Double.read_plain]

theorem render_text (s : String) : (text s).render = s :=
  String.ofList_toList

end Scalar

namespace ScalarType

open Scalar

theorem coerce_storedType (v : Scalar) : v.storedType.coerce v = .ok v.literal := by
  rw [coerce_eq_ok_iff]
  cases v with
  | text s => exact congrArg (fun t => some (Expr.text t)) (render_text s)
  | long n => rfl
  | double x => rfl

/-- As a string every scalar gives the text that it is written as. Read from this text as the type
that it is stored as, it has its own value again: a text is left as it is, an integer of any
size keeps its digits and its sign, and a double is the same one, be it infinite, a zero with
either sign or no number at all. -/
theorem coerce_render (v : Scalar) :
    string.coerce v = .ok (.text v.render) ∧ v.storedType.coerce v = .ok v.literal ∧
      v.storedType.coerce (.text v.render) = .ok v.literal := by
  refine ⟨rfl, coerce_storedType v, coerce_eq_ok_iff.mpr ?_⟩
  cases v with
  | text s => simp only [storedType, read?, render_text, literal]
  | long n => simp only [storedType, read?, long?_render, Option.map_some, literal]
  | double x => simp only [storedType, read?, double?_render, Option.map_some, literal]

/-- A whole double is written like an integer, and a negative zero with its sign. -/
example : (Scalar.double (.ofInt 3)).render = "3" ∧
    string.coerce (.double (.finite true .zero)) = .ok (.text "-0") ∧
    double.coerce (.text "-0") = .ok (.float (.finite true .zero)) :=
  ⟨by decide +kernel, rfl, rfl⟩

end ScalarType

end RadarQuery
