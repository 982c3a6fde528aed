import RadarQuery.Proofs.Eval.Basic
import RadarQuery.Proofs.Metadata.Resolution

/-!
Attribute references inside a query. A reference has the values of its path as its
value, so it can be replaced by the list of them before evaluation, and the rest
of the query never looks at the tree. What a reference resolves to are literals,
no symbols and no lists: the inserted list cannot be taken for a call, and its
value is itself.
-/

namespace RadarQuery

theorem Procedure.lookup_eq_none_tree {name : String} (hname : name ≠ "attr")
    (tree : Option Metadata) : lookup name tree = lookup name none := by
  unfold lookup
  split <;> first | rfl | exact absurd rfl hname

namespace Expr

def reference? : List Expr → Option (String × String)
  | [symbol "attr", text path, text type] => some (path, type)
  | [symbol "attr", text path, symbol type] => some (path, type)
  | _ => none

/-- Every list headed by `attr`, at any depth, has the form of a reference. -/
def ReferencesWellFormed (e : Expr) : Prop :=
  ∀ items ∈ e.lists, callee? items = some "attr" → (reference? items).isSome

def ReferencesResolve (m : Metadata) (e : Expr) : Prop :=
  ∀ items ∈ e.lists, ∀ r ∈ reference? items, (m.resolveNamed r.1 r.2).isOk

def WithoutReferences (e : Expr) : Prop :=
  ∀ items ∈ e.lists, callee? items ≠ some "attr"

instance (e : Expr) : Decidable e.ReferencesWellFormed :=
  inferInstanceAs (Decidable (∀ items ∈ e.lists, _ → _))

instance (m : Metadata) (e : Expr) : Decidable (e.ReferencesResolve m) :=
  inferInstanceAs (Decidable (∀ items ∈ e.lists, ∀ r ∈ reference? items, _))

mutual

/-- The query with each reference replaced by the list of its values. -/
def expand (m : Metadata) : Expr → Expr
  | atom a => atom a
  | list items =>
    match reference? items with
    | some (path, type) =>
      match m.resolveNamed path type with
      | .ok values => list values
      | .error _ => list items
    | none => list (expandItems m items)

def expandItems (m : Metadata) : List Expr → List Expr
  | [] => []
  | e :: es => expand m e :: expandItems m es

end

theorem expandItems_eq_map (m : Metadata) (items : List Expr) :
    expandItems m items = items.map (expand m) := by
  induction items with
  | nil => rfl
  | cons e es ih => rw [expandItems, ih, List.map_cons]

theorem symbol?_expand (m : Metadata) (e : Expr) : (e.expand m).symbol? = e.symbol? := by
  cases e with
  | atom a => rfl
  | list items =>
    rw [expand]
    split
    · split <;> rfl
    · rfl

/-- A list of literals is its own value. -/
theorem eval_literals (tree : Option Metadata) {values : List Expr}
    (h : ∀ e ∈ values, e.isLiteral) : eval tree (list values) = .ok (list values) := by
  have hitems : evalItems tree values = .ok values := by
    induction values with
    | nil => rfl
    | cons e es ih =>
      obtain ⟨hfirst, hrest⟩ := List.forall_mem_cons.mp h
      cases e with
      | list items => cases hfirst
      | atom a =>
        rw [evalItems_cons, ih hrest]
        rfl
  have hcallee : callee? values = none :=
    callee?_eq_none_iff.mpr fun name hname => by cases h _ (List.mem_of_head? hname)
  rw [eval_list, hitems, hcallee]
  rfl

theorem conclude_eq_none_tree {callee : Option String} (h : callee ≠ some "attr")
    (tree : Option Metadata) : conclude tree callee = conclude none callee := by
  cases callee with
  | none => rfl
  | some name =>
    have hname : name ≠ "attr" := fun hattr => h (congrArg some hattr)
    funext values
    rw [conclude, conclude, Procedure.lookup_eq_none_tree hname]

/-- The value of a reference is the list of the values that its path has in the tree. -/
theorem eval_reference {m : Metadata} {items : List Expr} {path type : String}
    (h : reference? items = some (path, type)) :
    eval (some m) (list items) = (m.resolveNamed path type).map list := by
  unfold reference? at h
  split at h
  · cases h
    rfl
  · cases h
    rfl
  · cases h

/-- The list of the values of a reference is its own value. -/
theorem eval_expand_reference {m : Metadata} {items : List Expr} {path type : String}
    (h : reference? items = some (path, type)) (hok : (m.resolveNamed path type).isOk) :
    eval none (expand m (list items)) = eval (some m) (list items) := by
  rw [expand, eval_reference h, h]
  cases hvalues : m.resolveNamed path type with
  | error cause =>
    rw [hvalues] at hok
    cases hok
  | ok values =>
    simp only [hvalues]
    exact eval_literals none fun e he => Metadata.isLiteral_of_mem_resolveNamed hvalues he

/-- Below the references the same procedures are applied to the same values. -/
theorem eval_expand {m : Metadata} {q : Expr} (hform : q.ReferencesWellFormed)
    (hresolve : q.ReferencesResolve m) : eval none (q.expand m) = eval (some m) q := by
  induction q using Expr.induction with
  | atom a => rfl
  | list items ih =>
    cases href : reference? items with
    | some r => exact eval_expand_reference href (hresolve items (mem_lists_self items) r href)
    | none =>
      have hcallee : callee? items ≠ some "attr" := by
        intro hattr
        have hsome := hform items (mem_lists_self items) hattr
        simp [href] at hsome
      have hitems : evalItems none (items.map (expand m)) = evalItems (some m) items := by
        apply evalItems_map
        intro e he
        have hbelow : ∀ l ∈ e.lists, l ∈ (list items).lists := fun l hl => mem_lists_of_mem he hl
        exact ih e he (fun l hl => hform l (hbelow l hl)) (fun l hl => hresolve l (hbelow l hl))
      rw [expand, href, expandItems_eq_map, eval_list, eval_list, hitems,
        callee?_map (symbol?_expand m), conclude_eq_none_tree hcallee (some m)]

theorem eval_eq_none_tree {q : Expr} (h : q.WithoutReferences) (tree : Option Metadata) :
    q.eval tree = q.eval none := by
  induction q using Expr.induction with
  | atom a => rfl
  | list items ih =>
    have hcallee : callee? items ≠ some "attr" := h items (mem_lists_self items)
    have hitems : evalItems tree (items.map id) = evalItems none items := by
      apply evalItems_map
      intro e he
      exact ih e he fun l hl => h l (mem_lists_of_mem he hl)
    rw [eval_list, eval_list, ← hitems, List.map_id, conclude_eq_none_tree hcallee tree]

/-- The value of a query in a tree is the value, without a tree, of the query with the
lists of their values in place of its references. A query without references has the
same value everywhere. -/
theorem evaluate_eq_eval_expand (m : Metadata) (q : Expr) :
    (q.ReferencesWellFormed → q.ReferencesResolve m → m.evaluate q = (q.expand m).eval none) ∧
      (q.WithoutReferences → ∀ tree, q.eval tree = q.eval none) :=
  ⟨fun hform hresolve => (eval_expand hform hresolve).symm, eval_eq_none_tree⟩

theorem evaluate_source_filter :
    (⟨#[⟨"", .root, none, [1]⟩, ⟨"what", .group, some 0, [2]⟩,
        ⟨"source", .leaf (.text "NOD:fivan"), some 1, []⟩]⟩ : Metadata).evaluate
        (list [symbol "in", text "fivan",
          list [symbol "attr", text "/what/source:NOD", symbol "string"]]) =
      (list [symbol "in", text "fivan", list [text "fivan"]]).eval none :=
  (evaluate_eq_eval_expand
    ⟨#[⟨"", .root, none, [1]⟩, ⟨"what", .group, some 0, [2]⟩,
      ⟨"source", .leaf (.text "NOD:fivan"), some 1, []⟩]⟩
    (list [symbol "in", text "fivan",
      list [symbol "attr", text "/what/source:NOD", symbol "string"]])).1
    (by decide) (by decide)

end Expr

end RadarQuery
