import RadarQuery.Metadata.Traversal
import RadarQuery.Proofs.Metadata.Lookup

/-!
What an insertion changes. The path of the new node leads to it and no longer
path leads anywhere, so what was below a replaced node is gone; all other paths
lead where they led. Of the nodes that were there before, only the parent and the
replaced one change. An insertion that fails changes nothing.
-/

namespace RadarQuery.Metadata

open Text

/-- A tree and the same tree with a new node, the child of `p` at the end of `path`. -/
structure Inserted (m : Metadata) (path : List String) (p : ℕ) (name : String) (kind : NodeKind)
    (m' : Metadata) : Prop where
  size : m'.nodes.size = m.nodes.size + 1
  new : m'.node m.nodes.size = ⟨name, kind, some p, []⟩
  find_new : ∀ q, pathNames q = path ++ [name] → m'.find? q = some m.nodes.size
  find_below : ∀ q, path ++ [name] <+: pathNames q → pathNames q ≠ path ++ [name] →
    m'.find? q = none
  find_other : ∀ q, ¬path ++ [name] <+: pathNames q → m'.find? q = m.find? q
  node_other : ∀ q c, ¬path ++ [name] <+: pathNames q → m.find? q = some c → c ≠ p →
    m'.node c = m.node c
  last : m.child? p name = none →
    (m'.node p).children = (m.node p).children ++ [m.nodes.size]
  in_place : ∀ old, m.child? p name = some old →
    (m.node old).name = name ∧ ∃ before after, (m.node p).children = before ++ old :: after ∧
      (m'.node p).children = before ++ m.nodes.size :: after
  parent : m'.node p = { m.node p with children := (m'.node p).children }
  replaced : ∀ old, m.child? p name = some old → m'.node old = { m.node old with parent := none }
  untouched : ∀ i, i ≠ m.nodes.size → i ≠ p → m.child? p name ≠ some i → m'.node i = m.node i

theorem WellFormed.inserted {m : Metadata} {path : List String} {p : ℕ} {name : String}
    {kind : NodeKind} (hm : m.WellFormed) (hp : m.descend 0 path = some p)
    (hcontainer : (m.node p).kind.isContainer) (hname : IsName name) :
    Inserted m path p name kind (m.attach p name kind) := by
  have hlt : p < m.nodes.size := hm.descend_lt_size hm.size_pos hp
  have hne : p ≠ m.nodes.size := Nat.ne_of_lt hlt
  have hchildren : ((m.attach p name kind).node p).children = m.childrenWith p name := by
    rw [hm.node_attach_old hlt hne]
    exact if_pos rfl
  have hself : ∀ {c}, m.child? p name = some c → p < c ∧ c < m.nodes.size := fun h =>
    hm.parent_lt (hm.child?_eq_some_iff.mp h).1
  have huntouched : ∀ {c}, c ≠ m.nodes.size → c ≠ p → m.child? p name ≠ some c →
      (m.attach p name kind).node c = m.node c := by
    intro c hc hcp hold
    rw [hm.node_attach_old hlt hc]
    simp only [if_neg hcp, if_neg hold]
  exact {
    size := size_attach
    new := hm.node_attach_new hlt
    find_new := by
      intro q hq
      rw [find?, hq]
      simpa using hm.descend_attach_of_prefix hp hcontainer hname []
    find_below := by
      intro q hbelow hlonger
      obtain ⟨rest, hrest⟩ := hbelow
      have hne : rest ≠ [] := by
        intro hnil
        rw [hnil, List.append_nil] at hrest
        exact hlonger hrest.symm
      rw [find?, ← hrest, hm.descend_attach_of_prefix hp hcontainer hname, if_neg hne]
    find_other := fun q hq => hm.descend_attach_of_not_prefix hp hcontainer hname hq
    node_other := by
      intro q c hq hc hcp
      refine huntouched (Nat.ne_of_lt (hm.find?_lt_size hc)) hcp ?_
      intro hold
      have hpath : m.descend 0 (path ++ [name]) = some c := by
        rw [descend_append_singleton, hp]
        exact hold
      exact hq (hm.descend_injective hpath hc ▸ List.prefix_rfl)
    last := by
      intro hnone
      rw [hchildren]
      exact (childrenWith_of_absent hnone).2
    in_place := by
      intro old hold
      obtain ⟨hsame, before, after, hsplit, -, hwith⟩ := childrenWith_of_replaced hold
      rw [hchildren]
      exact ⟨hsame, before, after, hsplit, hwith⟩
    parent := by
      have hnot : m.child? p name ≠ some p := fun h => Nat.lt_irrefl p (hself h).1
      rw [hm.node_attach_old hlt hne]
      simp only [if_neg hnot]
    replaced := by
      intro old hold
      have hgt := hself hold
      rw [hm.node_attach_old hlt (Nat.ne_of_lt hgt.2)]
      simp only [if_neg (Nat.ne_of_gt hgt.1), if_pos hold]
    untouched := fun i hi hip hold => huntouched hi hip hold }

/-- A new attribute is found under every spelling of its path. It hides what was below
that path and leaves the values at all other paths. -/
theorem WellFormed.value?_addAttribute {m m' : Metadata} {path : String} {value : Scalar} {id : ℕ}
    (hm : m.WellFormed) (h : m.addAttribute path value = .ok (id, m')) (q : String) :
    m'.value? q =
      if pathNames q = pathNames path then some value
      else if pathNames path <+: pathNames q then none
      else m.value? q := by
  rw [addAttribute_eq, add_eq_ok_iff] at h
  obtain ⟨hname, p, hfind, hcontainer, -, rfl⟩ := h
  have hpath := pathNames_splitPath hname
  have hinserted : Inserted m _ p _ (.leaf value) _ := hm.inserted hfind hcontainer hname
  have hlt : p < m.nodes.size := hm.find?_lt_size hfind
  rw [hpath]
  by_cases hq : pathNames q = pathNames (splitPath path).1 ++ [(splitPath path).2]
  · rw [if_pos hq, value?, hinserted.find_new q hq, Option.bind_some, hinserted.new]
    rfl
  · rw [if_neg hq]
    by_cases hbelow : pathNames (splitPath path).1 ++ [(splitPath path).2] <+: pathNames q
    · rw [if_pos hbelow, value?, hinserted.find_below q hbelow hq]
      rfl
    · rw [if_neg hbelow, value?, value?, hinserted.find_other q hbelow]
      cases hc : m.find? q with
      | none => rfl
      | some c =>
        rw [Option.bind_some, Option.bind_some,
          hm.kind_attach hlt (Nat.ne_of_lt (hm.find?_lt_size hc))]

/-- An insertion fails for the first of three reasons that applies, or changes the tree at
one path only. -/
theorem add_after (history : List Insertion) (parentPath name : String) (kind : NodeKind) :
    (¬IsName name →
      (after history).add parentPath name kind = .error (.invalidName name)) ∧
    (IsName name → (after history).find? parentPath = none →
      (after history).add parentPath name kind = .error (.parentNotFound parentPath)) ∧
    (∀ p value, IsName name → (after history).find? parentPath = some p →
      ((after history).node p).kind = .leaf value →
      (after history).add parentPath name kind = .error (.notAContainer ((after history).path p))) ∧
    (∀ p, IsName name → (after history).find? parentPath = some p →
      ((after history).node p).kind.isContainer →
      ∃ m', (after history).add parentPath name kind = .ok ((after history).nodes.size, m') ∧
        Inserted (after history) (pathNames parentPath) p name kind m') ∧
    (∀ call cause, (after history).perform call = .error cause →
      (after history).insert call = after history) ∧
    ∀ path value id m', (after history).addAttribute path value = .ok (id, m') → ∀ q,
      m'.value? q =
        if pathNames q = pathNames path then some value
        else if pathNames path <+: pathNames q then none
        else (after history).value? q := by
  have hm := wellFormed_after history
  refine ⟨?_, ?_, ?_, ?_, ?_, fun path value id m' h => hm.value?_addAttribute h⟩
  · intro hname
    rw [isName_iff, Bool.not_eq_false] at hname
    rw [add, if_pos hname]
  · intro hname hfind
    rw [isName_iff] at hname
    rw [add, hname, hfind]
    rfl
  · intro p value hname hfind hkind
    rw [isName_iff] at hname
    rw [add, hname, hfind]
    simp [hkind, NodeKind.isContainer]
  · intro p hname hfind hcontainer
    exact ⟨_, add_eq_ok_iff.mpr ⟨hname, p, hfind, hcontainer, rfl, rfl⟩,
      hm.inserted hfind hcontainer hname⟩
  · intro call cause h
    rw [Metadata.insert, h]

theorem add_after_replaced_group :
    ∃ m', (after [.group "/" "what", .leaf "//what//object/" (.text "PVOL")]).add
        "" "what" .dataset = .ok (3, m') ∧
      m'.find? "what/" = some 3 ∧ m'.find? "/what/object" = none := by
  obtain ⟨m', hadd, h⟩ :=
    (add_after [.group "/" "what", .leaf "//what//object/" (.text "PVOL")] "" "what"
      .dataset).2.2.2.1 0 ⟨by decide, by decide⟩ (by decide +kernel) (by decide +kernel)
  exact ⟨m', hadd, h.find_new _ (by decide), h.find_below _ (by decide) (by decide)⟩

end RadarQuery.Metadata
