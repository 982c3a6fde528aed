import Mathlib.Data.List.Perm.Subperm
import RadarQuery.Metadata.Traversal
import RadarQuery.Proofs.Metadata.Links

/-!
Level order. The queue of the traversal always holds the rest of one level and what
has been found of the next, so the levels come out one after the other. Every
node below the root is in the level of its depth and in no other, hence the
traversal ends, visits no node twice, and never sees a part that was cut off.
-/

namespace RadarQuery.Metadata

def level (m : Metadata) : ℕ → List ℕ
  | 0 => [0]
  | k + 1 => (m.level k).flatMap fun p => (m.node p).children

/-- The queue loop with no bound on its steps, with the nodes that it visits. -/
inductive Walks (m : Metadata) : List ℕ → List ℕ → Prop where
  | stop : Walks m [] []
  | step {id : ℕ} {queue visited : List ℕ} : Walks m (queue ++ (m.node id).children) visited →
      Walks m (id :: queue) (id :: visited)

def depth (m : Metadata) (id : ℕ) : ℕ :=
  match (m.node id).parent with
  | some p => if p < id then m.depth p + 1 else 0
  | none => 0
termination_by id

/-- The chain of parents of the first node comes to the second; each node is below itself. -/
def Below (m : Metadata) : ℕ → ℕ → Prop :=
  Relation.ReflTransGen fun c p => (m.node c).parent = some p

section Walk

variable {m : Metadata} {queue visited : List ℕ}

theorem Walks.visit_eq (h : m.Walks queue visited) {fuel : ℕ} (hfuel : visited.length ≤ fuel) :
    m.visit fuel queue = visited := by
  induction h generalizing fuel with
  | stop => cases fuel <;> rfl
  | step _ ih =>
    cases fuel with
    | zero => cases hfuel
    | succ fuel => rw [visit, ih (Nat.le_of_succ_le_succ hfuel)]

/-- The loop has at most one result. -/
theorem Walks.unique {visited' : List ℕ} (h : m.Walks queue visited)
    (h' : m.Walks queue visited') : visited = visited' := by
  rw [← h.visit_eq (Nat.le_max_left visited.length visited'.length),
    h'.visit_eq (Nat.le_max_right visited.length visited'.length)]

/-- The loop works off what stands in front of the queue and leaves the children of it
behind the rest. -/
theorem Walks.append {front : List ℕ}
    (h : m.Walks (queue ++ front.flatMap fun p => (m.node p).children) visited) :
    m.Walks (front ++ queue) (front ++ visited) := by
  induction front generalizing queue with
  | nil => simpa using h
  | cons id front ih =>
    rw [List.cons_append, List.cons_append]
    refine Walks.step ?_
    rw [List.append_assoc]
    apply ih
    rw [List.append_assoc]
    exact h

/-- Between two levels the queue holds exactly one of them. -/
theorem walks_level {n : ℕ} : ∀ k, m.level (k + n) = [] →
    m.Walks (m.level k) ((List.range' k n).flatMap m.level) := by
  induction n with
  | zero =>
    intro k hend
    rw [Nat.add_zero] at hend
    rw [hend]
    exact Walks.stop
  | succ n ih =>
    intro k hend
    have hrest : m.Walks ([] ++ m.level (k + 1)) ((List.range' (k + 1) n).flatMap m.level) :=
      ih (k + 1) (by rwa [Nat.add_right_comm])
    have hlevel := Walks.append hrest
    rwa [List.append_nil, ← List.flatMap_cons, ← List.range'_succ] at hlevel

end Walk

namespace WellFormed

variable {m : Metadata} {p c k : ℕ}

theorem parent_root (hm : m.WellFormed) : (m.node 0).parent = none := by
  obtain ⟨children, hroot⟩ := hm.root
  rw [hroot]

theorem depth_of_parent (hm : m.WellFormed) (h : (m.node c).parent = some p) :
    m.depth c = m.depth p + 1 := by
  rw [depth, h]
  exact if_pos (hm.lt_of_parent h)

theorem mem_level_succ_iff (hm : m.WellFormed) :
    c ∈ m.level (k + 1) ↔ ∃ p ∈ m.level k, (m.node c).parent = some p := by
  simp only [level, List.mem_flatMap, hm.mem_children_iff]

theorem depth_of_mem_level (hm : m.WellFormed) (h : c ∈ m.level k) : m.depth c = k := by
  induction k generalizing c with
  | zero =>
    obtain rfl : c = 0 := List.mem_singleton.mp h
    rw [depth, hm.parent_root]
  | succ k ih =>
    obtain ⟨p, hp, hparent⟩ := hm.mem_level_succ_iff.mp h
    rw [hm.depth_of_parent hparent, ih hp]

/-- Numbers grow along the links, so a level holds no number below its own. -/
theorem le_of_mem_level (hm : m.WellFormed) (h : c ∈ m.level k) : k ≤ c ∧ c < m.nodes.size := by
  induction k generalizing c with
  | zero =>
    obtain rfl : c = 0 := List.mem_singleton.mp h
    exact ⟨Nat.le_refl 0, hm.size_pos⟩
  | succ k ih =>
    obtain ⟨p, hp, hparent⟩ := hm.mem_level_succ_iff.mp h
    have hle := (ih hp).1
    have hlink := hm.parent_lt (hm.mem_children_iff.mpr hparent)
    omega

theorem level_eq_nil (hm : m.WellFormed) (hk : m.nodes.size ≤ k) : m.level k = [] := by
  refine List.eq_nil_iff_forall_not_mem.mpr fun c hc => ?_
  have hbounds := hm.le_of_mem_level hc
  omega

theorem nodup_level (hm : m.WellFormed) (k : ℕ) : (m.level k).Nodup := by
  induction k with
  | zero => exact List.nodup_singleton 0
  | succ k ih =>
    refine List.nodup_flatMap.mpr ⟨fun p _ => hm.nodup_children p, ih.imp fun {p q} hne => ?_⟩
    intro c hp hq
    rw [hm.mem_children_iff] at hp hq
    exact hne (Option.some.inj (hp.symm.trans hq))

theorem nodup_levels (hm : m.WellFormed) (n : ℕ) : ((List.range n).flatMap m.level).Nodup := by
  refine List.nodup_flatMap.mpr ⟨fun k _ => hm.nodup_level k, ?_⟩
  refine List.nodup_range.imp fun {j k} hne => ?_
  intro c hj hk
  exact hne ((hm.depth_of_mem_level hj).symm.trans (hm.depth_of_mem_level hk))

theorem walks_levels (hm : m.WellFormed) :
    m.Walks [0] ((List.range m.nodes.size).flatMap m.level) := by
  rw [List.range_eq_range']
  exact walks_level 0 (hm.level_eq_nil (Nat.le_of_eq (Nat.zero_add _).symm))

/-- There are no more nodes in the levels than numbers to go round. -/
theorem length_levels_le (hm : m.WellFormed) :
    ((List.range m.nodes.size).flatMap m.level).length ≤ m.nodes.size := by
  have hsub : (List.range m.nodes.size).flatMap m.level ⊆ List.range m.nodes.size := by
    intro c hc
    obtain ⟨k, -, hk⟩ := List.mem_flatMap.mp hc
    exact List.mem_range.mpr (hm.le_of_mem_level hk).2
  have hlength := ((hm.nodup_levels m.nodes.size).subperm hsub).length_le
  rwa [List.length_range] at hlength

theorem levelOrder_eq (hm : m.WellFormed) :
    m.levelOrder = (List.range m.nodes.size).flatMap m.level :=
  hm.walks_levels.visit_eq hm.length_levels_le

theorem mem_levelOrder_iff_level (hm : m.WellFormed) :
    c ∈ m.levelOrder ↔ ∃ k, c ∈ m.level k := by
  rw [hm.levelOrder_eq, List.mem_flatMap]
  constructor
  · intro h
    obtain ⟨k, -, hk⟩ := h
    exact ⟨k, hk⟩
  · intro h
    obtain ⟨k, hk⟩ := h
    have hbounds := hm.le_of_mem_level hk
    exact ⟨k, List.mem_range.mpr (by omega), hk⟩

/-- With a node the traversal visits its parent, and with a node its children. -/
theorem mem_levelOrder_of_parent (hm : m.WellFormed) (h : (m.node c).parent = some p) :
    c ∈ m.levelOrder ↔ p ∈ m.levelOrder := by
  rw [hm.mem_levelOrder_iff_level, hm.mem_levelOrder_iff_level]
  constructor
  · intro hc
    obtain ⟨k, hk⟩ := hc
    cases k with
    | zero =>
      obtain rfl : c = 0 := List.mem_singleton.mp hk
      simp [hm.parent_root] at h
    | succ k =>
      obtain ⟨q, hq, hparent⟩ := hm.mem_level_succ_iff.mp hk
      obtain rfl : q = p := Option.some.inj (hparent.symm.trans h)
      exact ⟨k, hq⟩
  · intro hp
    obtain ⟨k, hk⟩ := hp
    exact ⟨k + 1, hm.mem_level_succ_iff.mpr ⟨p, hk, h⟩⟩

theorem root_mem_levelOrder (hm : m.WellFormed) : 0 ∈ m.levelOrder :=
  hm.mem_levelOrder_iff_level.mpr ⟨0, List.mem_singleton_self 0⟩

theorem below_root_of_mem_level (hm : m.WellFormed) (h : c ∈ m.level k) : m.Below c 0 := by
  induction k generalizing c with
  | zero =>
    obtain rfl : c = 0 := List.mem_singleton.mp h
    exact Relation.ReflTransGen.refl
  | succ k ih =>
    obtain ⟨p, hp, hparent⟩ := hm.mem_level_succ_iff.mp h
    exact Relation.ReflTransGen.head hparent (ih hp)

theorem mem_levelOrder_iff (hm : m.WellFormed) : c ∈ m.levelOrder ↔ m.Below c 0 := by
  constructor
  · intro h
    obtain ⟨k, hk⟩ := hm.mem_levelOrder_iff_level.mp h
    exact hm.below_root_of_mem_level hk
  · intro h
    induction h using Relation.ReflTransGen.head_induction_on with
    | refl => exact hm.root_mem_levelOrder
    | head hparent _ ih => exact (hm.mem_levelOrder_of_parent hparent).mpr ih

theorem nodup_levelOrder (hm : m.WellFormed) : m.levelOrder.Nodup := by
  rw [hm.levelOrder_eq]
  exact hm.nodup_levels m.nodes.size

theorem walks_iff (hm : m.WellFormed) {visited : List ℕ} :
    m.Walks [0] visited ↔ visited = m.levelOrder := by
  rw [hm.levelOrder_eq]
  constructor
  · exact fun h => h.unique hm.walks_levels
  · rintro rfl
    exact hm.walks_levels

theorem pairwise_depth_levelOrder (hm : m.WellFormed) :
    m.levelOrder.Pairwise fun a b => m.depth a ≤ m.depth b := by
  rw [hm.levelOrder_eq, List.pairwise_flatMap]
  constructor
  · intro k _
    refine List.pairwise_of_forall_mem_list fun a ha b hb => ?_
    exact Nat.le_of_eq ((hm.depth_of_mem_level ha).trans (hm.depth_of_mem_level hb).symm)
  · refine List.pairwise_lt_range.imp fun {j k} hlt a ha b hb => ?_
    rw [hm.depth_of_mem_level ha, hm.depth_of_mem_level hb]
    exact Nat.le_of_lt hlt

/-- A parent is visited before its children, since its depth is smaller. -/
theorem exists_parent_before (hm : m.WellFormed) (hc : c ∈ m.levelOrder)
    (h : (m.node c).parent = some p) :
    ∃ before rest, m.levelOrder = before ++ c :: rest ∧ p ∈ before := by
  obtain ⟨before, rest, hsplit⟩ := List.append_of_mem hc
  refine ⟨before, rest, hsplit, ?_⟩
  have hp : p ∈ m.levelOrder := (hm.mem_levelOrder_of_parent h).mp hc
  have hdepth := hm.pairwise_depth_levelOrder
  rw [hsplit] at hp hdepth
  rcases List.mem_append.mp hp with hbefore | hlater
  · exact hbefore
  · exfalso
    have hle : m.depth c ≤ m.depth p := by
      rcases List.mem_cons.mp hlater with rfl | hrest
      · exact Nat.le_refl _
      · exact (List.pairwise_cons.mp (List.pairwise_append.mp hdepth).2.1).1 p hrest
    rw [hm.depth_of_parent h] at hle
    omega

/-- What was cut off is not below the root, nor is anything below it. -/
theorem not_below_root (hm : m.WellFormed) (htop : p ≠ 0) (horphan : (m.node p).parent = none)
    (hbelow : m.Below c p) : ¬m.Below c 0 := by
  intro hroot
  induction hbelow using Relation.ReflTransGen.head_induction_on with
  | refl =>
    rcases Relation.ReflTransGen.cases_head hroot with heq | ⟨q, hparent, -⟩
    · exact htop heq
    · rw [horphan] at hparent
      cases hparent
  | head hparent _ ih =>
    rcases Relation.ReflTransGen.cases_head hroot with rfl | ⟨q, hparent', hroot'⟩
    · rw [hm.parent_root] at hparent
      cases hparent
    · obtain rfl := Option.some.inj (hparent.symm.trans hparent')
      exact ih hroot'

end WellFormed

/-- Whatever was inserted, replaced or refused before, the traversal ends and visits one
level after the other. It visits the nodes below the root, each once, and nothing that
was cut off; a parent comes before its children, and no node comes before a higher one. -/
theorem levelOrder_after (history : List Insertion) :
    (∀ visited, (after history).Walks [0] visited ↔ visited = (after history).levelOrder) ∧
    (after history).levelOrder =
      (List.range (after history).nodes.size).flatMap (after history).level ∧
    (∀ k, (after history).nodes.size ≤ k → (after history).level k = []) ∧
    (after history).levelOrder.Nodup ∧
    (∀ id, id ∈ (after history).levelOrder ↔ (after history).Below id 0) ∧
    (∀ top id, top ≠ 0 → ((after history).node top).parent = none →
      (after history).Below id top → id ∉ (after history).levelOrder) ∧
    (∀ p c, c ∈ (after history).levelOrder → ((after history).node c).parent = some p →
      ∃ before rest, (after history).levelOrder = before ++ c :: rest ∧ p ∈ before) ∧
    (after history).levelOrder.Pairwise fun a b =>
      (after history).depth a ≤ (after history).depth b := by
  have hm := wellFormed_after history
  refine ⟨fun visited => hm.walks_iff, hm.levelOrder_eq, fun k => hm.level_eq_nil,
    hm.nodup_levelOrder, fun id => hm.mem_levelOrder_iff, ?_, fun p c => hm.exists_parent_before,
    hm.pairwise_depth_levelOrder⟩
  intro top id htop horphan hbelow hmem
  exact hm.not_below_root htop horphan hbelow (hm.mem_levelOrder_iff.mp hmem)

/-- The first group named `what` was replaced by a data set, so the attribute below it is
gone and the one below the data set comes after that. -/
theorem levelOrder_after_replaced_group :
    2 ∉ (after [.group "/" "what", .leaf "/what/object" (.text "PVOL"), .dataset "" "what",
      .leaf "what/date" (.text "20240131")]).levelOrder ∧
    (∃ before rest, (after [.group "/" "what", .leaf "/what/object" (.text "PVOL"),
      .dataset "" "what", .leaf "what/date" (.text "20240131")]).levelOrder =
        before ++ 4 :: rest ∧ 3 ∈ before) ∧
    (after [.group "/" "what", .leaf "/what/object" (.text "PVOL"), .dataset "" "what",
      .leaf "what/date" (.text "20240131")]).level 7 = [] := by
  obtain ⟨-, -, hlevel, -, -, hcut, hparent, -⟩ := levelOrder_after [.group "/" "what",
    .leaf "/what/object" (.text "PVOL"), .dataset "" "what", .leaf "what/date" (.text "20240131")]
  refine ⟨hcut 1 2 (by decide) (by decide +kernel) (Relation.ReflTransGen.single ?_),
    hparent 3 4 (by decide +kernel) (by decide +kernel), hlevel 7 (by decide +kernel)⟩
  decide +kernel

end RadarQuery.Metadata
