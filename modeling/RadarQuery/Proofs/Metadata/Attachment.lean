import Mathlib.Data.Nat.Notation
import RadarQuery.Metadata.Tree

/-!
The attachment of a node, one node at a time. Three nodes are touched: the new one,
its parent, whose children it joins, and the child that it replaces, which loses
its parent. All others are what they were.
-/

namespace RadarQuery.Metadata

variable {m : Metadata} {parent i : ℕ} {name : String} {kind : NodeKind}

theorem node_of_size_le (h : m.nodes.size ≤ i) : m.node i = rootNode := by
  simp [node, node?, h]

theorem lt_size_of_mem_children {c : ℕ} (h : c ∈ (m.node i).children) : i < m.nodes.size := by
  rcases Nat.lt_or_ge i m.nodes.size with hi | hi
  · exact hi
  · rw [node_of_size_le hi] at h
    cases h

theorem node_push (m : Metadata) (n : Node) (i : ℕ) :
    (⟨m.nodes.push n⟩ : Metadata).node i = if i = m.nodes.size then n else m.node i := by
  simp only [node, node?, Array.getElem?_push]
  split <;> rfl

theorem node_modify (nodes : Array Node) (f : Node → Node) {j : ℕ} (hj : j < nodes.size) (i : ℕ) :
    (⟨nodes.modify j f⟩ : Metadata).node i =
      if i = j then f ((⟨nodes⟩ : Metadata).node i) else (⟨nodes⟩ : Metadata).node i := by
  simp only [node, node?, Array.getElem?_modify]
  by_cases h : i = j
  · subst h
    simp [hj]
  · simp [h, Ne.symm h]

def childrenWith (m : Metadata) (parent : ℕ) (name : String) : List ℕ :=
  match m.child? parent name with
  | some old => (m.node parent).children.replace old m.nodes.size
  | none => (m.node parent).children ++ [m.nodes.size]

/-- The new child stands where the first child of its name stood. -/
theorem childrenWith_of_replaced {old : ℕ} (h : m.child? parent name = some old) :
    (m.node old).name = name ∧ ∃ before after, (m.node parent).children = before ++ old :: after ∧
      (∀ c ∈ before, (m.node c).name ≠ name) ∧
      m.childrenWith parent name = before ++ m.nodes.size :: after := by
  obtain ⟨hname, before, after, hsplit, hbefore⟩ := List.find?_eq_some_iff_append.mp h
  rw [beq_iff_eq] at hname
  have hne : ∀ c ∈ before, (m.node c).name ≠ name := fun c hc => by
    simpa using hbefore c hc
  have hold : old ∉ before := fun hmem => hne old hmem hname
  refine ⟨hname, before, after, hsplit, hne, ?_⟩
  rw [childrenWith, h]
  simp only
  rw [hsplit, List.replace_append_right hold, List.replace_cons_self]

/-- Without a child of its name the new child comes last. -/
theorem childrenWith_of_absent (h : m.child? parent name = none) :
    (∀ c ∈ (m.node parent).children, (m.node c).name ≠ name) ∧
      m.childrenWith parent name = (m.node parent).children ++ [m.nodes.size] := by
  refine ⟨fun c hc => ?_, ?_⟩
  · simpa using List.find?_eq_none.mp h c hc
  · rw [childrenWith, h]

theorem size_attach : (m.attach parent name kind).nodes.size = m.nodes.size + 1 := by
  unfold attach
  split <;> simp

/-- Every node after an attachment. -/
theorem node_attach (hparent : parent < m.nodes.size)
    (hold : ∀ old, m.child? parent name = some old → old < m.nodes.size) (i : ℕ) :
    (m.attach parent name kind).node i =
      if i = m.nodes.size then ⟨name, kind, some parent, []⟩
      else
        { m.node i with
          children := if i = parent then m.childrenWith parent name else (m.node i).children
          parent := if m.child? parent name = some i then none else (m.node i).parent } := by
  have hpush : parent < (m.nodes.push ⟨name, kind, some parent, []⟩).size := by
    rw [Array.size_push]
    omega
  have hne : m.nodes.size ≠ parent := by omega
  unfold attach childrenWith
  cases hchild : m.child? parent name with
  | none =>
    simp only [reduceCtorEq, if_false]
    rw [node_modify _ _ hpush, node_push]
    by_cases hi : i = m.nodes.size
    · subst hi
      simp [hne]
    · by_cases hip : i = parent <;> simp [hi, hip, hne.symm]
  | some old =>
    have hlt : old < m.nodes.size := hold old hchild
    have hmodify : old < ((m.nodes.push ⟨name, kind, some parent, []⟩).modify parent fun n =>
        { n with children := n.children.replace old m.nodes.size }).size := by
      rw [Array.size_modify, Array.size_push]
      omega
    simp only [Option.some.injEq]
    rw [node_modify _ _ hmodify, node_modify _ _ hpush, node_push]
    by_cases hi : i = m.nodes.size
    · subst hi
      simp [hne, Nat.ne_of_gt hlt]
    · simp only [if_neg hi, eq_comm (a := i) (b := old)]
      by_cases hip : i = parent
      · subst hip
        by_cases ho : old = i <;> simp [ho]
      · by_cases ho : old = i <;> simp [hip, ho]

end RadarQuery.Metadata
