import Mathlib.Data.List.Induction
import Mathlib.Data.List.TakeWhile
import RadarQuery.Proofs.Metadata.WellFormed
import RadarQuery.Proofs.Text.Paths

/-!
The way down from the root by names. The path of an attribute has the names of its
parent's path and one more, however its slashes are placed. A node can be reached
by at most one list of names, so an attachment under the node at a path is seen by
no list of names except those that begin with the path of the new node.
-/

namespace RadarQuery.Metadata

open Text

/-- The cut at the last slash and the cut at every slash give the same names. -/
theorem pathNames_splitPath {path : String} (hname : IsName (splitPath path).2) :
    pathNames path = pathNames (splitPath path).1 ++ [(splitPath path).2] := by
  obtain ⟨hne, hslash⟩ := hname
  obtain ⟨trimmed, htrimmed⟩ : ∃ trimmed,
      (path.toList.reverse.dropWhile (· == '/')).reverse = trimmed := ⟨_, rfl⟩
  have hpath : path.toList = trimmed ++ (path.toList.reverse.takeWhile (· == '/')).reverse := by
    rw [← htrimmed, ← List.reverse_append, List.takeWhile_append_dropWhile, List.reverse_reverse]
  have hnames : pathNames path = pathNames (String.ofList trimmed) := by
    rw [← String.ofList_toList (s := path), hpath]
    apply pathNames_append_slashes
    intro c hc
    simpa using List.mem_takeWhile_imp (List.mem_reverse.mp hc)
  have hsingle : ∀ {cs : List Char}, String.ofList cs ≠ "" → '/' ∉ (String.ofList cs).toList →
      pathNames (String.ofList cs) = [String.ofList cs] := by
    intro cs hcs hno
    rw [String.toList_ofList] at hno
    exact pathNames_singleton (fun hnil => hcs (by rw [hnil])) hno
  rw [hnames]
  unfold splitPath at hne hslash ⊢
  rw [htrimmed] at hne hslash ⊢
  cases hcut : cutLast '/' trimmed with
  | some parts =>
    obtain ⟨before, after⟩ := parts
    simp only [hcut] at hne hslash ⊢
    rw [eq_of_cutLast hcut, pathNames_slash, hsingle hne hslash]
  | none =>
    simp only [hcut] at hne hslash ⊢
    rw [hsingle hne hslash, pathNames_empty, List.nil_append]

theorem descend_append (m : Metadata) (id : ℕ) (names rest : List String) :
    m.descend id (names ++ rest) = (m.descend id names).bind fun c => m.descend c rest := by
  induction names generalizing id with
  | nil => rfl
  | cons name names ih =>
    rw [List.cons_append, descend, descend]
    cases m.child? id name with
    | none => rfl
    | some c => exact ih c

theorem descend_singleton (m : Metadata) (id : ℕ) (name : String) :
    m.descend id [name] = m.child? id name := by
  rw [descend]
  cases m.child? id name <;> rfl

theorem descend_append_singleton (m : Metadata) (id : ℕ) (names : List String) (name : String) :
    m.descend id (names ++ [name]) = (m.descend id names).bind fun c => m.child? c name := by
  rw [descend_append]
  simp only [descend_singleton]

namespace WellFormed

variable {m : Metadata} {p c d : ℕ} {name : String} {kind : NodeKind} {names rest : List String}

theorem parent_of_child? (hm : m.WellFormed) (h : m.child? p name = some c) :
    (m.node c).parent = some p ∧ (m.node c).name = name := by
  obtain ⟨hmem, hname⟩ := hm.child?_eq_some_iff.mp h
  exact ⟨hm.mem_children_iff.mp hmem, hname⟩

theorem child?_ne_root (hm : m.WellFormed) : m.child? p name ≠ some 0 := by
  intro h
  have hlt := (hm.parent_lt (hm.child?_eq_some_iff.mp h).1).1
  omega

/-- Only the empty list of names leads to the root. -/
theorem descend_ne_root (hm : m.WellFormed) : m.descend 0 (names ++ [name]) ≠ some 0 := by
  intro h
  rw [descend_append_singleton] at h
  obtain ⟨d, _, hchild⟩ := Option.bind_eq_some_iff.mp h
  exact absurd hchild hm.child?_ne_root

/-- At most one list of names leads to a node. -/
theorem descend_injective (hm : m.WellFormed) (h : m.descend 0 names = some c)
    (h' : m.descend 0 rest = some c) : names = rest := by
  induction names using List.reverseRecOn generalizing rest c with
  | nil =>
    cases h
    induction rest using List.reverseRecOn with
    | nil => rfl
    | append_singleton rest name _ => exact absurd h' hm.descend_ne_root
  | append_singleton names name ih =>
    induction rest using List.reverseRecOn with
    | nil =>
      cases h'
      exact absurd h hm.descend_ne_root
    | append_singleton rest name' _ =>
      rw [descend_append_singleton] at h h'
      obtain ⟨d, hd, hchild⟩ := Option.bind_eq_some_iff.mp h
      obtain ⟨d', hd', hchild'⟩ := Option.bind_eq_some_iff.mp h'
      obtain ⟨hparent, hname⟩ := hm.parent_of_child? hchild
      obtain ⟨hparent', hname'⟩ := hm.parent_of_child? hchild'
      obtain rfl : d = d' := Option.some.inj (hparent.symm.trans hparent')
      rw [ih hd hd', ← hname, ← hname']

section Attach

variable (hm : m.WellFormed) (hp : m.descend 0 names = some p)
  (hcontainer : (m.node p).kind.isContainer) (hname : IsName name)

include hm hp hcontainer hname

theorem child?_attach_new : (m.attach p name kind).child? p name = some m.nodes.size := by
  have hlt := hm.descend_lt_size hm.size_pos hp
  rw [(hm.attach hlt hcontainer hname).child?_eq_some_iff, hm.mem_children_attach_iff hlt,
    hm.node_attach_new hlt]
  exact ⟨Or.inl ⟨rfl, rfl⟩, rfl⟩

theorem child?_attach_of_ne {q : ℕ} {n : String} (hne : q = p → n ≠ name) :
    (m.attach p name kind).child? q n = m.child? q n := by
  have hlt := hm.descend_lt_size hm.size_pos hp
  apply Option.ext
  intro c
  rw [(hm.attach hlt hcontainer hname).child?_eq_some_iff, hm.mem_children_attach_iff hlt,
    hm.child?_eq_some_iff]
  constructor
  · intro h
    obtain ⟨hc, hn⟩ := h
    rcases hc with ⟨rfl, rfl⟩ | ⟨hc, -⟩
    · rw [hm.node_attach_new hlt] at hn
      exact absurd hn.symm (hne rfl)
    · rw [hm.name_attach hlt (Nat.ne_of_lt (hm.parent_lt hc).2)] at hn
      exact ⟨hc, hn⟩
  · intro h
    obtain ⟨hc, hn⟩ := h
    rw [hm.name_attach hlt (Nat.ne_of_lt (hm.parent_lt hc).2)]
    exact ⟨Or.inr ⟨hc, fun h => hne h.1 (hn.symm.trans h.2)⟩, hn⟩

/-- Names that do not begin with the path of the new node lead where they led. -/
theorem descend_attach_of_not_prefix {path : List String} (h : ¬names ++ [name] <+: path) :
    (m.attach p name kind).descend 0 path = m.descend 0 path := by
  induction path using List.reverseRecOn with
  | nil => rfl
  | append_singleton path n ih =>
    have hpath : ¬names ++ [name] <+: path := fun hbegins =>
      h (hbegins.trans (List.prefix_append path [n]))
    rw [descend_append_singleton, descend_append_singleton, ih hpath]
    cases hq : m.descend 0 path with
    | none => rfl
    | some q =>
      apply hm.child?_attach_of_ne hp hcontainer hname
      rintro rfl rfl
      rw [hm.descend_injective hq hp] at h
      exact h List.prefix_rfl

/-- The path of the new node leads to it, and a longer path leads nowhere. -/
theorem descend_attach_of_prefix (rest : List String) :
    (m.attach p name kind).descend 0 (names ++ [name] ++ rest) =
      if rest = [] then some m.nodes.size else none := by
  have hlt := hm.descend_lt_size hm.size_pos hp
  have hparent : ¬names ++ [name] <+: names := fun hbegins => by
    have hlength := hbegins.length_le
    rw [List.length_append, List.length_singleton] at hlength
    omega
  rw [descend_append, descend_append_singleton,
    hm.descend_attach_of_not_prefix hp hcontainer hname hparent, hp]
  simp only [Option.bind_some, hm.child?_attach_new hp hcontainer hname]
  cases rest with
  | nil => rfl
  | cons n rest =>
    rw [descend, child?, hm.node_attach_new hlt]
    simp

end Attach

end WellFormed

end RadarQuery.Metadata
