import RadarQuery.Expr.Build
import RadarQuery.Proofs.EarlyExit
import RadarQuery.Proofs.Eval.Basic

/-!
Chains of connectives. A conjunction or a disjunction evaluates both its operands, the left
one first, and looks at their truth values only. So a chain of them goes through all its
queries from the left whatever their answers are: it fails as the first query that fails,
and otherwise it puts the answers together.
-/

namespace RadarQuery.Metadata

variable {m : Metadata} {es : List Expr} {cause : EvalError}

/-- The first of the queries that has no value fails with this error. -/
def FirstFails (m : Metadata) (es : List Expr) (cause : EvalError) : Prop :=
  ∃ before e rest, es = before ++ e :: rest ∧
    (∀ b ∈ before, ∃ value, m.evaluate b = .ok value) ∧ m.evaluate e = .error cause

def Combines (m : Metadata) (connective : Expr → Expr → Expr) (op : Bool → Bool → Bool) : Prop :=
  ∀ l r, m.isMatch (connective l r) =
    (m.isMatch l).bind fun a => (m.isMatch r).map fun b => op a b

section Operands

variable {op : Bool → Bool → Bool}

theorem combines_call {name : String} {p : Procedure}
    (hlookup : Procedure.lookup name (some m) = some p)
    (hcall : ∀ l r, p.call [l, r] = .ok (.boolean (op l.isTruthy r.isTruthy))) :
    Combines m (fun l r => Query.call name [l, r]) op := by
  intro l r
  simp only [isMatch, evaluate, Query.call, Expr.eval_call hlookup, Expr.evalItems_cons]
  cases l.eval (some m) with
  | error cause => rfl
  | ok a =>
    cases r.eval (some m) with
    | error cause => rfl
    | ok b => exact congrArg (Except.map Expr.isTruthy) (hcall a b)

theorem combines_and (m : Metadata) : Combines m Query.and Bool.and :=
  combines_call rfl fun _ _ => rfl

theorem combines_or (m : Metadata) : Combines m Query.or Bool.or :=
  combines_call rfl fun _ _ => rfl

end Operands

section Chains

/-- A chain that is nested to the left asks its queries from the left. Its answers are
combined from a value on that changes none of them. -/
theorem Combines.isMatch_foldl {connective : Expr → Expr → Expr} {op : Bool → Bool → Bool}
    {unit : Bool} (h : Combines m connective op) (hunit : ∀ b, op unit b = b) (first : Expr)
    (es : List Expr) : m.isMatch (es.foldl connective first) =
      ((first :: es).mapM m.isMatch).map fun answers => answers.foldl op unit := by
  induction es generalizing first with
  | nil =>
    rw [List.foldl_nil, List.mapM_cons]
    cases m.isMatch first with
    | error cause => rfl
    | ok a => exact congrArg Except.ok (hunit a).symm
  | cons e es ih =>
    rw [List.foldl_cons, ih, List.mapM_cons, h, List.mapM_cons, List.mapM_cons]
    cases m.isMatch first with
    | error cause => rfl
    | ok a =>
      cases m.isMatch e with
      | error cause => rfl
      | ok b =>
        cases es.mapM m.isMatch with
        | error cause => rfl
        | ok answers =>
          change Except.ok (answers.foldl op (op unit (op a b))) =
            .ok (answers.foldl op (op (op unit a) b))
          rw [hunit, hunit]

theorem foldl_and (answers : List Bool) (a : Bool) :
    answers.foldl Bool.and a = (a && answers.all id) := by
  induction answers generalizing a with
  | nil => simp
  | cons b answers ih => rw [List.foldl_cons, ih, List.all_cons, id, ← Bool.and_assoc]

theorem foldl_or (answers : List Bool) (a : Bool) :
    answers.foldl Bool.or a = (a || answers.any id) := by
  induction answers generalizing a with
  | nil => simp
  | cons b answers ih => rw [List.foldl_cons, ih, List.any_cons, id, ← Bool.or_assoc]

theorem isMatch_all (m : Metadata) (es : List Expr) :
    m.isMatch (Query.all es) = (es.mapM m.isMatch).map fun answers => answers.all id := by
  cases es with
  | nil => rfl
  | cons e es =>
    simp only [Query.all, (combines_and m).isMatch_foldl Bool.true_and, foldl_and, Bool.true_and]

theorem isMatch_any (m : Metadata) (es : List Expr) :
    m.isMatch (Query.any es) = (es.mapM m.isMatch).map fun answers => answers.any id := by
  cases es with
  | nil => rfl
  | cons e es =>
    simp only [Query.any, (combines_or m).isMatch_foldl Bool.false_or, foldl_or, Bool.false_or]

end Chains

section Answers

variable {f : List Bool → Bool} {answers : List Bool}

theorem isMatch_eq_error_iff {e : Expr} :
    m.isMatch e = .error cause ↔ m.evaluate e = .error cause := by
  unfold isMatch
  cases m.evaluate e <;> simp [Except.map]

theorem exists_isMatch_eq_ok_iff {e : Expr} :
    (∃ answer, m.isMatch e = .ok answer) ↔ ∃ value, m.evaluate e = .ok value := by
  unfold isMatch
  cases m.evaluate e <;> simp [Except.map]

/-- What is done with the answers does not come to pass if a query fails. -/
theorem answers_eq_error_iff :
    (es.mapM m.isMatch).map f = .error cause ↔ FirstFails m es cause := by
  have hmap : (es.mapM m.isMatch).map f = .error cause ↔ es.mapM m.isMatch = .error cause := by
    cases es.mapM m.isMatch <;> simp [Except.map]
  simp only [hmap, mapM_eq_error_iff, FirstFails, isMatch_eq_error_iff, exists_isMatch_eq_ok_iff]

theorem all_answers_iff (h : es.mapM m.isMatch = .ok answers) :
    answers.all id ↔ ∀ e ∈ es, m.isMatch e = .ok true := by
  have hplaces : es.map m.isMatch = answers.map .ok := mapM_eq_ok_iff.mp h
  have hforall : (∀ e ∈ es, m.isMatch e = .ok true) ↔
      ∀ answer ∈ es.map m.isMatch, answer = .ok true := by rw [List.forall_mem_map]
  rw [hforall, hplaces, List.forall_mem_map]
  simp

theorem any_answers_iff (h : es.mapM m.isMatch = .ok answers) :
    answers.any id ↔ ∃ e ∈ es, m.isMatch e = .ok true := by
  have hplaces : es.map m.isMatch = answers.map .ok := mapM_eq_ok_iff.mp h
  have hexists : (∃ e ∈ es, m.isMatch e = .ok true) ↔ .ok true ∈ es.map m.isMatch :=
    List.mem_map.symm
  rw [hexists, hplaces]
  simp

end Answers

/-- If all queries of a chain have a value, a conjunction is true if all of them are, and a
disjunction if one of them is. Otherwise both fail as the first query that fails, also
where the answer of an earlier one would have settled the matter. -/
theorem isMatch_all_any (m : Metadata) (es : List Expr) :
    ((∀ e ∈ es, ∃ answer, m.isMatch e = .ok answer) →
      (∃ answer, m.isMatch (Query.all es) = .ok answer ∧
        (answer ↔ ∀ e ∈ es, m.isMatch e = .ok true)) ∧
      ∃ answer, m.isMatch (Query.any es) = .ok answer ∧
        (answer ↔ ∃ e ∈ es, m.isMatch e = .ok true)) ∧
    ∀ cause,
      (m.isMatch (Query.all es) = .error cause ↔ FirstFails m es cause) ∧
      (m.isMatch (Query.any es) = .error cause ↔ FirstFails m es cause) := by
  rw [isMatch_all, isMatch_any]
  refine ⟨fun hanswer => ?_, fun cause => ⟨answers_eq_error_iff, answers_eq_error_iff⟩⟩
  obtain ⟨answers, hanswers⟩ := exists_mapM_eq_ok hanswer
  rw [hanswers]
  exact ⟨⟨_, rfl, all_answers_iff hanswers⟩, ⟨_, rfl, any_answers_iff hanswers⟩⟩

/-- Neither a false query in front of the division nor a true one keeps it from being
reported, and the unknown procedure behind it is not. -/
theorem isMatch_all_any_division_by_zero :
    (∃ answer, empty.isMatch (Query.all [.list [], .text "a", .integer 0]) = .ok answer ∧
      (answer ↔ ∀ e ∈ [Expr.list [], .text "a", .integer 0], empty.isMatch e = .ok true)) ∧
    empty.isMatch (Query.any [.list [], .text "a", .integer 0]) = .ok true ∧
    ∀ query ∈ [Query.all, Query.any],
      empty.isMatch (query [.integer 0, .integer 1, Query.div (.integer 1) (.integer 0),
        Query.call "nope" []]) = .error .divisionByZero := by
  have hvalues : ∀ e ∈ [Expr.list [], .text "a", .integer 0],
      ∃ answer, empty.isMatch e = .ok answer := by
    simp only [List.forall_mem_cons]
    exact ⟨⟨_, rfl⟩, ⟨_, rfl⟩, ⟨_, rfl⟩, by simp⟩
  have hfails : FirstFails empty [.integer 0, .integer 1, Query.div (.integer 1) (.integer 0),
      Query.call "nope" []] .divisionByZero := by
    refine ⟨[.integer 0, .integer 1], _, _, rfl, ?_, rfl⟩
    simp only [List.forall_mem_cons]
    exact ⟨⟨_, rfl⟩, ⟨_, rfl⟩, by simp⟩
  obtain ⟨hall, answer, hany, htrue⟩ := (isMatch_all_any empty _).1 hvalues
  refine ⟨hall, ?_, ?_⟩
  · obtain rfl : answer = true := htrue.mpr ⟨.text "a", by simp, rfl⟩
    exact hany
  · simp only [List.forall_mem_cons]
    exact ⟨((isMatch_all_any empty _).2 _).1.mpr hfails,
      ((isMatch_all_any empty _).2 _).2.mpr hfails, by simp⟩

end RadarQuery.Metadata
