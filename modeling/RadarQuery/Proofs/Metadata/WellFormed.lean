import Mathlib.Logic.Basic
import Mathlib.Logic.Relation
import RadarQuery.Proofs.Metadata.Attachment

/-!
The shape of a tree. The links between parents and children agree in both
directions and go from smaller to larger numbers, siblings have different names
and attributes have no children. An attachment keeps this, so every tree that is
built by insertions has it, with the parts that were cut off included: they keep
their inner links, and only their tops have lost the parent.
-/

namespace RadarQuery.Metadata

def IsName (name : String) : Prop :=
  name ≠ "" ∧ '/' ∉ name.toList

structure WellFormed (m : Metadata) : Prop where
  size_pos : 0 < m.nodes.size
  root : ∃ children, m.node 0 = ⟨"", .root, none, children⟩
  parent_lt : ∀ {p c}, c ∈ (m.node p).children → p < c ∧ c < m.nodes.size
  mem_children_iff : ∀ {p c}, c ∈ (m.node p).children ↔ (m.node c).parent = some p
  names_ne : ∀ p, (m.node p).children.Pairwise fun c d => (m.node c).name ≠ (m.node d).name
  isName : ∀ {c}, 0 < c → c < m.nodes.size → IsName (m.node c).name
  leaf_children : ∀ {p v}, (m.node p).kind = .leaf v → (m.node p).children = []

theorem wellFormed_empty : empty.WellFormed := by
  have hnode : ∀ i, empty.node i = rootNode := by
    intro i
    cases i <;> rfl
  refine ⟨Nat.one_pos, ⟨[], rfl⟩, ?_, ?_, ?_, ?_, ?_⟩
  · intro p c hc
    rw [hnode] at hc
    cases hc
  · intro p c
    simp [hnode, rootNode]
  · intro p
    rw [hnode]
    exact List.Pairwise.nil
  · intro c hpos hlt
    have hone : c < 1 := hlt
    omega
  · intro p v hkind
    rw [hnode] at hkind
    cases hkind

namespace WellFormed

variable {m : Metadata} {p c id : ℕ} {name : String} {kind : NodeKind}

/-- The child of a name is the one child that has it. -/
theorem child?_eq_some_iff (hm : m.WellFormed) :
    m.child? p name = some c ↔ c ∈ (m.node p).children ∧ (m.node c).name = name := by
  constructor
  · intro h
    exact ⟨List.mem_of_find?_eq_some h, by simpa using List.find?_some h⟩
  · intro h
    obtain ⟨hmem, hname⟩ := h
    obtain ⟨before, after, hsplit⟩ := List.append_of_mem hmem
    have hne := hm.names_ne p
    rw [hsplit, List.pairwise_append] at hne
    rw [child?, hsplit]
    refine List.find?_eq_some_iff_append.mpr ⟨by simpa using hname, before, after, rfl, ?_⟩
    intro d hd
    have hd' := hne.2.2 d hd c (List.mem_cons_self ..)
    rw [hname] at hd'
    simpa using hd'

theorem child?_lt_size (hm : m.WellFormed) (h : m.child? p name = some c) : c < m.nodes.size :=
  (hm.parent_lt (hm.child?_eq_some_iff.mp h).1).2

theorem descend_lt_size (hm : m.WellFormed) {names : List String} (hid : id < m.nodes.size)
    (h : m.descend id names = some c) : c < m.nodes.size := by
  induction names generalizing id with
  | nil =>
    cases h
    exact hid
  | cons name names ih =>
    obtain ⟨d, hd, hrest⟩ := Option.bind_eq_some_iff.mp h
    exact ih (hm.child?_lt_size hd) hrest

theorem find?_lt_size (hm : m.WellFormed) {path : String} (h : m.find? path = some c) :
    c < m.nodes.size :=
  hm.descend_lt_size hm.size_pos h

/-- Around the new child the siblings of other names stand in their old order. -/
theorem exists_childrenWith (hm : m.WellFormed) (p : ℕ) (name : String) :
    ∃ before after, m.childrenWith p name = before ++ m.nodes.size :: after ∧
      before ++ after = (m.node p).children.filter fun c => (m.node c).name ≠ name := by
  cases hchild : m.child? p name with
  | none =>
    obtain ⟨hne, hwith⟩ := childrenWith_of_absent hchild
    refine ⟨_, [], hwith, ?_⟩
    rw [List.append_nil, eq_comm, List.filter_eq_self]
    simpa using hne
  | some old =>
    obtain ⟨hname, before, after, hsplit, hbefore, hwith⟩ := childrenWith_of_replaced hchild
    have hne := hm.names_ne p
    rw [hsplit, List.pairwise_append, List.pairwise_cons] at hne
    have hafter : ∀ d ∈ after, (m.node d).name ≠ name := fun d hd => hname ▸ (hne.2.1.1 d hd).symm
    refine ⟨before, after, hwith, ?_⟩
    rw [hsplit, List.filter_append, List.filter_cons_of_neg (by simpa using hname),
      List.filter_eq_self.mpr (by simpa using hbefore),
      List.filter_eq_self.mpr (by simpa using hafter)]

theorem mem_childrenWith_iff (hm : m.WellFormed) :
    c ∈ m.childrenWith p name ↔
      c = m.nodes.size ∨ c ∈ (m.node p).children ∧ (m.node c).name ≠ name := by
  obtain ⟨before, after, hwith, hothers⟩ := hm.exists_childrenWith p name
  have hmem : c ∈ before ++ after ↔ c ∈ (m.node p).children ∧ (m.node c).name ≠ name := by
    rw [hothers, List.mem_filter, decide_eq_true_eq]
  rw [hwith, ← hmem, List.mem_append, List.mem_cons, List.mem_append, or_left_comm]

section Attach

variable (hm : m.WellFormed) (hp : p < m.nodes.size)

include hm hp

theorem node_attach_new : (m.attach p name kind).node m.nodes.size = ⟨name, kind, some p, []⟩ := by
  rw [node_attach hp (fun old hold => hm.child?_lt_size hold), if_pos rfl]

theorem node_attach_old (hid : id ≠ m.nodes.size) : (m.attach p name kind).node id =
    { m.node id with
      children := if id = p then m.childrenWith p name else (m.node id).children
      parent := if m.child? p name = some id then none else (m.node id).parent } := by
  rw [node_attach hp (fun old hold => hm.child?_lt_size hold), if_neg hid]

theorem name_attach (hid : id ≠ m.nodes.size) :
    ((m.attach p name kind).node id).name = (m.node id).name := by
  rw [hm.node_attach_old hp hid]

theorem kind_attach (hid : id ≠ m.nodes.size) :
    ((m.attach p name kind).node id).kind = (m.node id).kind := by
  rw [hm.node_attach_old hp hid]

theorem mem_children_attach_iff : c ∈ ((m.attach p name kind).node id).children ↔
    id = p ∧ c = m.nodes.size ∨ c ∈ (m.node id).children ∧ ¬(id = p ∧ (m.node c).name = name) := by
  rcases eq_or_ne id m.nodes.size with rfl | hid
  · rw [hm.node_attach_new hp, node_of_size_le (Nat.le_refl _)]
    simp [rootNode, Nat.ne_of_gt hp]
  · rw [hm.node_attach_old hp hid]
    by_cases hidp : id = p
    · subst hidp
      simp [hm.mem_childrenWith_iff]
    · simp [hidp]

theorem parent_attach_iff {q : ℕ} : ((m.attach p name kind).node c).parent = some q ↔
    c = m.nodes.size ∧ q = p ∨ (m.node c).parent = some q ∧ m.child? p name ≠ some c := by
  rcases eq_or_ne c m.nodes.size with rfl | hc
  · rw [hm.node_attach_new hp, node_of_size_le (Nat.le_refl _)]
    simp [rootNode, eq_comm]
  · rw [hm.node_attach_old hp hc]
    by_cases hold : m.child? p name = some c <;> simp [hold, hc]

/-- The links still agree in both directions. -/
theorem mem_children_attach_iff_parent {q : ℕ} :
    c ∈ ((m.attach p name kind).node q).children ↔
      ((m.attach p name kind).node c).parent = some q := by
  rw [hm.mem_children_attach_iff hp, hm.parent_attach_iff hp, hm.mem_children_iff,
    Ne, hm.child?_eq_some_iff, hm.mem_children_iff]
  constructor
  · intro h
    rcases h with ⟨rfl, rfl⟩ | ⟨hc, hne⟩
    · exact Or.inl ⟨rfl, rfl⟩
    · refine Or.inr ⟨hc, fun hold => hne ⟨?_, hold.2⟩⟩
      rw [hold.1, Option.some.injEq] at hc
      exact hc.symm
  · intro h
    rcases h with ⟨rfl, rfl⟩ | ⟨hc, hne⟩
    · exact Or.inl ⟨rfl, rfl⟩
    · exact Or.inr ⟨hc, fun hold => hne ⟨hold.1 ▸ hc, hold.2⟩⟩

theorem names_ne_attach (q : ℕ) :
    ((m.attach p name kind).node q).children.Pairwise fun c d =>
      ((m.attach p name kind).node c).name ≠ ((m.attach p name kind).node d).name := by
  have hpairs : ∀ {l : List ℕ}, (∀ c ∈ l, c ∈ (m.node q).children) →
      l.Pairwise (fun c d => (m.node c).name ≠ (m.node d).name) →
      l.Pairwise fun c d =>
        ((m.attach p name kind).node c).name ≠ ((m.attach p name kind).node d).name := by
    intro l hl h
    have hlt : ∀ c ∈ l, c ≠ m.nodes.size := fun c hc => Nat.ne_of_lt (hm.parent_lt (hl c hc)).2
    refine h.imp_of_mem fun {c d} hc hd hne => ?_
    rw [hm.name_attach hp (hlt c hc), hm.name_attach hp (hlt d hd)]
    exact hne
  rcases eq_or_ne q m.nodes.size with rfl | hq
  · rw [hm.node_attach_new hp]
    exact List.Pairwise.nil
  · rw [hm.node_attach_old hp hq]
    by_cases hqp : q = p
    · subst hqp
      obtain ⟨before, after, hwith, hothers⟩ := hm.exists_childrenWith q name
      have hmem : ∀ c ∈ before ++ after, c ∈ (m.node q).children ∧ (m.node c).name ≠ name := by
        intro c hc
        simpa [hothers] using hc
      simp only [if_true]
      rw [hwith, List.pairwise_middle fun {c d} h => h.symm, List.pairwise_cons]
      refine ⟨fun c hc => ?_, hpairs (fun c hc => (hmem c hc).1) ?_⟩
      · rw [hm.node_attach_new hp,
          hm.name_attach hp (Nat.ne_of_lt (hm.parent_lt (hmem c hc).1).2)]
        exact (hmem c hc).2.symm
      · rw [hothers]
        exact (hm.names_ne q).filter _
    · simp only [if_neg hqp]
      exact hpairs (fun c hc => hc) (hm.names_ne q)

end Attach

/-- An attachment to a container keeps the shape. -/
theorem attach (hm : m.WellFormed) (hp : p < m.nodes.size)
    (hcontainer : (m.node p).kind.isContainer) (hname : IsName name) :
    (m.attach p name kind).WellFormed where
  size_pos := by
    rw [size_attach]
    omega
  root := by
    obtain ⟨children, hroot⟩ := hm.root
    rw [hm.node_attach_old hp (Nat.ne_of_lt hm.size_pos), hroot]
    simp only [ite_self]
    exact ⟨_, rfl⟩
  parent_lt := by
    intro q c hc
    rw [size_attach]
    rcases (hm.mem_children_attach_iff hp).mp hc with ⟨rfl, rfl⟩ | ⟨hc, -⟩
    · omega
    · have hlt := hm.parent_lt hc
      omega
  mem_children_iff := hm.mem_children_attach_iff_parent hp
  names_ne := hm.names_ne_attach hp
  isName := by
    intro c hpos hlt
    rw [size_attach] at hlt
    rcases eq_or_ne c m.nodes.size with rfl | hc
    · rw [hm.node_attach_new hp]
      exact hname
    · rw [hm.name_attach hp hc]
      exact hm.isName hpos (by omega)
  leaf_children := by
    intro q v hkind
    rcases eq_or_ne q m.nodes.size with rfl | hq
    · rw [hm.node_attach_new hp]
    · rw [hm.node_attach_old hp hq] at hkind ⊢
      have hqp : q ≠ p := by
        intro heq
        rw [← heq] at hcontainer
        simp only at hkind
        rw [hkind] at hcontainer
        cases hcontainer
      simp only [if_neg hqp]
      exact hm.leaf_children hkind

end WellFormed

theorem isName_iff {name : String} :
    IsName name ↔ (name.isEmpty || name.toList.contains '/') = false := by
  simp [IsName]

theorem add_eq_ok_iff {m m' : Metadata} {parentPath name : String} {kind : NodeKind} {id : ℕ} :
    m.add parentPath name kind = .ok (id, m') ↔
      IsName name ∧ ∃ p, m.find? parentPath = some p ∧ (m.node p).kind.isContainer ∧
        id = m.nodes.size ∧ m' = m.attach p name kind := by
  rw [isName_iff, add]
  cases hname : name.isEmpty || name.toList.contains '/' with
  | true => simp
  | false =>
    cases hfind : m.find? parentPath with
    | none => simp
    | some p =>
      simp only [Bool.false_eq_true, if_false, true_and, Option.some.injEq]
      cases hkind : (m.node p).kind.isContainer with
      | false =>
        simp only [Bool.false_eq_true, if_false, reduceCtorEq, false_iff]
        intro h
        obtain ⟨q, rfl, hq, -⟩ := h
        rw [hkind] at hq
        cases hq
      | true =>
        simp only [if_true, Except.ok.injEq, Prod.mk.injEq]
        constructor
        · intro h
          obtain ⟨rfl, rfl⟩ := h
          exact ⟨p, rfl, hkind, rfl, rfl⟩
        · intro h
          obtain ⟨q, rfl, -, rfl, rfl⟩ := h
          exact ⟨rfl, rfl⟩

theorem addAttribute_eq (m : Metadata) (path : String) (value : Scalar) :
    m.addAttribute path value = m.add (splitPath path).1 (splitPath path).2 (.leaf value) := rfl

inductive Insertion where
  | node (parentPath name : String) (kind : NodeKind)
  | group (parentPath name : String)
  | dataset (parentPath name : String)
  | leaf (path : String) (value : Scalar)

def perform (m : Metadata) : Insertion → Except MetadataError (ℕ × Metadata)
  | .node parentPath name kind => m.add parentPath name kind
  | .group parentPath name => m.add parentPath name .group
  | .dataset parentPath name => m.add parentPath name .dataset
  | .leaf path value => m.addAttribute path value

/-- The tree after a call. A call that fails leaves it as it is. -/
def insert (m : Metadata) (i : Insertion) : Metadata :=
  match m.perform i with
  | .ok (_, m') => m'
  | .error _ => m

def after (history : List Insertion) : Metadata :=
  history.foldl insert empty

theorem exists_perform_eq_add (m : Metadata) (i : Insertion) :
    ∃ parentPath name kind, m.perform i = m.add parentPath name kind := by
  cases i with
  | leaf path value => exact ⟨_, _, _, addAttribute_eq m path value⟩
  | _ => exact ⟨_, _, _, rfl⟩

/-- A call attaches one node or does nothing. -/
theorem insert_cases (m : Metadata) (i : Insertion) :
    m.insert i = m ∨ ∃ parentPath p name kind, IsName name ∧ m.find? parentPath = some p ∧
      (m.node p).kind.isContainer ∧ m.insert i = m.attach p name kind := by
  obtain ⟨parentPath, name, kind, hadd⟩ := m.exists_perform_eq_add i
  unfold insert
  cases hperform : m.perform i with
  | error cause => exact Or.inl rfl
  | ok result =>
    obtain ⟨id, m'⟩ := result
    rw [hadd, add_eq_ok_iff] at hperform
    obtain ⟨hname, p, hfind, hcontainer, -, hm'⟩ := hperform
    exact Or.inr ⟨parentPath, p, name, kind, hname, hfind, hcontainer, hm'⟩

theorem WellFormed.insert {m : Metadata} (hm : m.WellFormed) (i : Insertion) :
    (m.insert i).WellFormed := by
  rcases m.insert_cases i with h | ⟨_, p, name, kind, hname, hfind, hcontainer, h⟩
  · rw [h]
    exact hm
  · rw [h]
    exact hm.attach (hm.find?_lt_size hfind) hcontainer hname

theorem wellFormed_after (history : List Insertion) : (after history).WellFormed := by
  suffices h : ∀ m : Metadata, m.WellFormed → (history.foldl Metadata.insert m).WellFormed from
    h empty wellFormed_empty
  induction history with
  | nil => exact fun m hm => hm
  | cons i history ih => exact fun m hm => ih (m.insert i) (hm.insert i)

end RadarQuery.Metadata
