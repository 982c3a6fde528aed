import RadarQuery.Expr.Build
import RadarQuery.Proofs.Eval.Basic
import RadarQuery.Proofs.Operator.Lifting

/-!
Membership in a list. Looking for an element that equals one of the list and lifting equality
over the pairings are two ways to ask one question: both say whether some pairing is equal,
whatever the two operands are made of. Only a right operand that is no list tells them apart.
-/

namespace RadarQuery

open RadarQuery.Expr

section Pairing

variable {left : Expr}

/-- Equality of two values never fails, so lifted it is decided for all operands. -/
theorem existential_eq_ok (left right : Expr) :
    existential Comparison.eq.apply left right =
      .ok ((pairings left right).any fun pair => pair.1.equals pair.2) := by
  rw [existential_eq_anyM]
  exact List.anyM_pure

theorem any_pairings_iff {right : Expr} :
    ((pairings left right).any fun pair => pair.1.equals pair.2) ↔
      ∃ l ∈ left.elements, ∃ r ∈ right.elements, l.equals r := by
  rw [List.any_eq_true]
  constructor
  · rintro ⟨⟨l, r⟩, hpair, hequal⟩
    obtain ⟨hl, hr⟩ := mem_pairings_iff.mp hpair
    exact ⟨l, hl, r, hr, hequal⟩
  · rintro ⟨l, hl, r, hr, hequal⟩
    exact ⟨(l, r), mem_pairings_iff.mpr ⟨hl, hr⟩, hequal⟩

theorem isMember_list (left : Expr) (items : List Expr) :
    isMember left (.list items) =
      .ok ((pairings left (.list items)).any fun pair => pair.1.equals pair.2) := by
  have hlists : (left.elements.any fun l => items.any fun r => l.equals r) =
      (pairings left (.list items)).any fun pair => pair.1.equals pair.2 := by
    rw [Bool.eq_iff_iff, any_pairings_iff]
    simp only [List.any_eq_true]
    rfl
  exact congrArg Except.ok hlists

theorem isMember_of_kind_ne {right : Expr} (h : right.kind ≠ .list) :
    isMember left right = .error (.invalidArgument (.notAList right.kind)) := by
  cases right with
  | list items => exact absurd rfl h
  | atom a => rfl

end Pairing

section Calls

variable {tree : Option Metadata} {p q : Procedure} {name name' : String} {b : Expr}

/-- Two procedures that agree on a value for the second operand agree on the calls where it has
this value. -/
theorem eval_call_congr (hp : Procedure.lookup name tree = some p)
    (hq : Procedure.lookup name' tree = some q) {value : Expr} (hb : b.eval tree = .ok value)
    (h : ∀ l, p.call [l, value] = q.call [l, value]) (a : Expr) :
    (Query.call name [a, b]).eval tree = (Query.call name' [a, b]).eval tree := by
  rw [Query.call, Query.call, eval_call hp, eval_call hq]
  simp only [evalItems_cons, hb]
  cases a.eval tree with
  | error cause => rfl
  | ok l => exact h l

end Calls

/-- Membership of a list is equality with it for all operands on the left, and it says whether
some element of the left operand equals one of the list. So where the second operand of a
query has a list as its value, membership and equality are the same query. With anything
else on the right membership is refused, with an empty list on the left too. -/
theorem isMember_eq_existential :
    (∀ (left : Expr) (items : List Expr),
      isMember left (.list items) = existential Comparison.eq.apply left (.list items) ∧
      ∃ found, isMember left (.list items) = .ok found ∧
        (found ↔ ∃ l ∈ left.elements, ∃ r ∈ items, l.equals r)) ∧
    (∀ (tree : Option Metadata) (a b : Expr) (items : List Expr), b.eval tree = .ok (.list items) →
      (Query.member a b).eval tree = (Query.eq a b).eval tree) ∧
    ∀ left right : Expr, right.kind ≠ .list →
      isMember left right = .error (.invalidArgument (.notAList right.kind)) := by
  have hsame : ∀ (left : Expr) (items : List Expr),
      isMember left (.list items) = existential Comparison.eq.apply left (.list items) := by
    intro left items
    rw [isMember_list, existential_eq_ok]
  refine ⟨fun left items => ⟨hsame left items, _, isMember_list left items, any_pairings_iff⟩,
    ?_, fun left right => isMember_of_kind_ne⟩
  intro tree a b items hb
  refine eval_call_congr (p := .member) (q := .comparison .eq) rfl rfl hb (fun l => ?_) a
  exact congrArg (fun result => result.map Expr.boolean) (hsame l items)

/-- Lists inside a list are elements as they are, so the empty list has none that could be a
member of a list which holds it. Beside a text it is refused. -/
theorem isMember_eq_existential_empty :
    (Query.member (list []) (Query.call "list" [list [], integer 1])).eval none =
      (Query.eq (list []) (Query.call "list" [list [], integer 1])).eval none ∧
    (Query.eq (list []) (Query.call "list" [list [], integer 1])).eval none = .ok (boolean false) ∧
    (∃ found, isMember (list [list []]) (list [list [], integer 1]) = .ok found ∧
      (found ↔ ∃ l ∈ [list []], ∃ r ∈ [list [], integer 1], l.equals r)) ∧
    isMember (list []) (text "a") = .error (.invalidArgument (.notAList .text)) :=
  ⟨isMember_eq_existential.2.1 none _ _ [list [], integer 1] rfl, rfl,
    (isMember_eq_existential.1 _ _).2, isMember_eq_existential.2.2 _ _ (by decide)⟩

end RadarQuery
