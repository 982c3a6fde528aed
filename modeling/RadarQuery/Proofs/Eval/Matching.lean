import RadarQuery.Proofs.Eval.References
import RadarQuery.Proofs.Metadata.Listing

/-!
What a match depends on. A query asks its tree for nothing but the values of references,
and those are a matter of the listing of the tree. So two trees that list the same
attributes give every query the same value or the same error, whatever calls built
them, and whatever nodes they hold besides.
-/

namespace RadarQuery

variable {m m' : Metadata}

theorem Procedure.call_attr_congr
    (h : ∀ path type, m.resolveNamed path type = m'.resolveNamed path type) (args : List Expr) :
    (attr m).call args = (attr m').call args := by
  have hvalues : ∀ path type, values m path type = values m' path type := by
    intro path type
    simp only [values, h]
  rcases args with _ | ⟨path, _ | ⟨type, _ | ⟨third, rest⟩⟩⟩
  · rfl
  · rfl
  · exact hvalues path type
  · rfl

namespace Expr

theorem conclude_congr_tree
    (h : ∀ path type, m.resolveNamed path type = m'.resolveNamed path type)
    (callee : Option String) : conclude (some m) callee = conclude (some m') callee := by
  by_cases hattr : callee = some "attr"
  · subst hattr
    funext values
    exact Procedure.call_attr_congr h values.tail
  · rw [conclude_eq_none_tree hattr (some m), conclude_eq_none_tree hattr (some m')]

/-- The tree of an evaluation is seen through its references only. -/
theorem eval_congr_tree
    (h : ∀ path type, m.resolveNamed path type = m'.resolveNamed path type) (q : Expr) :
    q.eval (some m) = q.eval (some m') := by
  induction q using Expr.induction with
  | atom a => rfl
  | list items ih =>
    have hitems : evalItems (some m) (items.map id) = evalItems (some m') items :=
      evalItems_map ih
    rw [eval_list, eval_list, ← hitems, List.map_id, conclude_congr_tree h]

end Expr

namespace Metadata

/-- Two trees that list the same attributes with the same values in the same order give every
query the same result, in value, error and truth. Whatever else differs does not count, be
it nodes that were replaced, calls that failed, empty groups or the kinds of containers. -/
theorem evaluate_eq_of_listing_eq {history history' : List Insertion}
    (hkinds : ∀ i ∈ history, i.kind ≠ .root) (hkinds' : ∀ i ∈ history', i.kind ≠ .root)
    (h : (after history).listing = (after history').listing) (q : Expr) :
    (after history).evaluate q = (after history').evaluate q ∧
      (after history).isMatch q = (after history').isMatch q := by
  have hsame : (after history).evaluate q = (after history').evaluate q :=
    Expr.eval_congr_tree (resolveNamed_congr (wellFormed_after history)
      (wellFormed_after history') (singleRoot_after hkinds) (singleRoot_after hkinds') h) q
  refine ⟨hsame, ?_⟩
  rw [isMatch, isMatch, hsame]

/-- One tree has replaced a group by a data set, refused an attribute and kept an empty group,
the other one has done nothing of the kind. -/
theorem evaluate_eq_of_listing_eq_detour :
    (after [.group "/" "what", .leaf "/what/object" (.text "SCAN"), .dataset "/" "what",
        .leaf "what/object" (.text "PVOL"), .leaf "/where/lon" (.long 12),
        .group "/" "how"]).evaluate
      (.list [.symbol "=", .list [.symbol "attr", .text "object", .text "string"],
        .text "PVOL"]) =
    (after [.group "" "what", .leaf "/what//object/" (.text "PVOL")]).evaluate
      (.list [.symbol "=", .list [.symbol "attr", .text "object", .text "string"],
        .text "PVOL"]) :=
  (evaluate_eq_of_listing_eq (by decide +kernel) (by decide +kernel) (by decide +kernel) _).1

end Metadata

end RadarQuery
