import RadarQuery.Metadata.Reference
import RadarQuery.Proofs.EarlyExit
import RadarQuery.Proofs.Expr.Structure

/-!
What references resolve to. The values are literals whatever the path and the
type are: neither a symbol nor a list is ever read from a scalar.
-/

namespace RadarQuery

namespace ScalarType

variable {wanted : ScalarType} {v : Scalar} {e : Expr}

theorem coerce_eq_ok_iff : wanted.coerce v = .ok e ↔ wanted.read? v = some e := by
  unfold coerce
  split
  case h_1 value h => simp [h]
  case h_2 h => simp [h]

theorem coerce_eq_error (h : wanted.read? v = none) :
    wanted.coerce v = .error (.typeError (.attributeValue v wanted)) := by
  simp only [coerce, h]

theorem isLiteral_of_coerce (h : wanted.coerce v = .ok e) : e.isLiteral := by
  have hread : wanted.read? v = some e := coerce_eq_ok_iff.mp h
  cases wanted with
  | string =>
    cases hread
    rfl
  | _ =>
    obtain ⟨value, _, rfl⟩ := Option.map_eq_some_iff.mp hread
    rfl

end ScalarType

namespace Metadata

variable {m : Metadata} {wanted : ScalarType} {values : List Expr} {e : Expr}

theorem isLiteral_of_mem_resolveKey {holder key : String}
    (h : m.resolveKey holder key wanted = .ok values) (he : e ∈ values) : e.isLiteral := by
  unfold resolveKey at h
  split at h
  · cases h
    cases he
  · split at h
    · cases h
    · split at h
      · cases h
        cases he
      · rename_i value _
        obtain ⟨e', hvalue, rfl⟩ := map_eq_ok_iff.mp h
        obtain rfl := List.mem_singleton.mp he
        exact ScalarType.isLiteral_of_coerce hvalue

theorem isLiteral_of_mem_resolveSuffix {names : List String}
    (h : m.resolveSuffix names wanted = .ok values) (he : e ∈ values) : e.isLiteral := by
  unfold resolveSuffix at h
  split at h
  · cases h
    cases he
  · obtain ⟨a, _, hvalue⟩ := exists_of_mem_mapM h he
    exact ScalarType.isLiteral_of_coerce hvalue

theorem isLiteral_of_mem_resolve {path : String}
    (h : m.resolve path wanted = .ok values) (he : e ∈ values) : e.isLiteral := by
  unfold resolve at h
  split at h
  · exact isLiteral_of_mem_resolveKey h he
  · exact isLiteral_of_mem_resolveSuffix h he

theorem isLiteral_of_mem_resolveNamed {path type : String}
    (h : m.resolveNamed path type = .ok values) (he : e ∈ values) : e.isLiteral := by
  obtain ⟨wanted, -, hresolve⟩ := bind_eq_ok_iff.mp h
  exact isLiteral_of_mem_resolve hresolve he

end Metadata

end RadarQuery
