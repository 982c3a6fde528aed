import RadarQuery.Proofs.Metadata.History
import RadarQuery.Proofs.Metadata.Reachability

/-!
The path of a node as its address. The way up collects the names of a node and of the
nodes above it, those of the root's kind left out, and the way down takes all of them.
So the path leads back to the node exactly if nothing was left out, and where no node
but the root has its kind every reachable node has a path of its own.
-/

namespace RadarQuery.Metadata

open Text

namespace WellFormed

variable {m : Metadata} {p c id : ℕ}

theorem isName_of_climbs (hm : m.WellFormed) {start : Option ℕ} {collected : List String}
    (h : m.Climbs start collected) : ∀ n ∈ collected, IsName n := by
  induction h with
  | stop => exact fun n hn => absurd hn List.not_mem_nil
  | @step id names _ ih =>
    by_cases hkind : (m.node id).kind = .root
    · rw [if_pos hkind]
      exact ih
    · have hpos : 0 < id := by
        refine Nat.pos_of_ne_zero ?_
        rintro rfl
        obtain ⟨children, hroot⟩ := hm.root
        rw [hroot] at hkind
        exact hkind rfl
      have hlt : id < m.nodes.size := by
        refine Nat.lt_of_not_le fun hle => hkind ?_
        rw [node_of_size_le hle]
        rfl
      rw [if_neg hkind]
      exact List.forall_mem_cons.mpr ⟨hm.isName hpos hlt, ih⟩

/-- The names along the path of a node are those that the way up collects. -/
theorem pathNames_path (hm : m.WellFormed) (id : ℕ) : pathNames (m.path id) = m.names id :=
  pathNames_join fun n hn => hm.isName_of_climbs (hm.climbs_namesUp id) n (List.mem_reverse.mp hn)

theorem names_root (hm : m.WellFormed) : m.names 0 = [] := by
  obtain ⟨children, hroot⟩ := hm.root
  rw [names, namesUp, hroot]
  rfl

theorem names_of_parent (hm : m.WellFormed) (h : (m.node c).parent = some p) : m.names c =
    if (m.node c).kind = .root then m.names p else m.names p ++ [(m.node c).name] := by
  rw [names, namesUp, h]
  simp only [if_pos (hm.lt_of_parent h)]
  split
  · rfl
  · rw [List.reverse_cons, names]

/-- The nodes from a node up to below the root are that node and those from its parent up. -/
theorem forall_above_iff (hm : m.WellFormed) (h : (m.node c).parent = some p) {P : ℕ → Prop} :
    (∀ d, m.Below c d → d ≠ 0 → P d) ↔ P c ∧ ∀ d, m.Below p d → d ≠ 0 → P d := by
  constructor
  · intro hall
    refine ⟨hall c Relation.ReflTransGen.refl ?_, fun d hd =>
      hall d (Relation.ReflTransGen.head h hd)⟩
    rintro rfl
    rw [hm.parent_root] at h
    cases h
  · intro hall d hd hne
    rcases Relation.ReflTransGen.cases_head hd with rfl | ⟨q, hparent, hrest⟩
    · exact hall.1
    · obtain rfl := Option.some.inj (h.symm.trans hparent)
      exact hall.2 d hrest hne

/-- The way down to a node passes all the names of its path, and no others exactly if no
node on the way is of the root's kind. -/
theorem exists_descend_names (hm : m.WellFormed) (h : m.Below id 0) :
    ∃ way, m.descend 0 way = some id ∧ (m.names id).Sublist way ∧
      (m.names id = way ↔ ∀ c, m.Below id c → c ≠ 0 → (m.node c).kind ≠ .root) := by
  induction h using Relation.ReflTransGen.head_induction_on with
  | refl =>
    refine ⟨[], rfl, by rw [hm.names_root], ?_⟩
    rw [hm.names_root, eq_self, true_iff]
    intro c hc hne
    exact absurd (Nat.le_zero.mp (hm.le_of_below hc)) hne
  | @head c p hparent hbelow ih =>
    obtain ⟨way, hway, hsub, hsame⟩ := ih
    have hchild : m.child? p (m.node c).name = some c :=
      hm.child?_eq_some_iff.mpr ⟨hm.mem_children_iff.mpr hparent, rfl⟩
    refine ⟨way ++ [(m.node c).name], ?_, ?_, ?_⟩
    · rw [descend_append_singleton, hway]
      exact hchild
    · rw [hm.names_of_parent hparent]
      split
      · exact hsub.trans (List.sublist_append_left way _)
      · exact hsub.append (List.Sublist.refl _)
    · rw [hm.names_of_parent hparent, hm.forall_above_iff hparent]
      -- A node of the root's kind makes the way longer but not the path, and further down
      -- the path does not catch up.
      by_cases hkind : (m.node c).kind = .root
      · rw [if_pos hkind]
        refine iff_of_false ?_ fun hplain => hplain.1 hkind
        intro heq
        have hlength := hsub.length_le
        rw [heq, List.length_append, List.length_singleton] at hlength
        omega
      · rw [if_neg hkind, List.append_left_inj, hsame, and_iff_right hkind]

theorem find?_path_iff (hm : m.WellFormed) (h : m.Below id 0) :
    m.find? (m.path id) = some id ↔ ∀ c, m.Below id c → c ≠ 0 → (m.node c).kind ≠ .root := by
  obtain ⟨way, hway, -, hsame⟩ := hm.exists_descend_names h
  rw [find?, hm.pathNames_path, ← hsame]
  constructor
  · exact fun hfind => hm.descend_injective hfind hway
  · intro heq
    rw [heq]
    exact hway

end WellFormed

def SingleRoot (m : Metadata) : Prop :=
  ∀ id, m.Below id 0 → id ≠ 0 → (m.node id).kind ≠ .root

theorem singleRoot_after {history : List Insertion} (h : ∀ i ∈ history, i.kind ≠ .root) :
    (after history).SingleRoot := fun _ hbelow hid =>
  kind_ne_root_after h hid ((wellFormed_after history).lt_size_of_below_root hbelow)

namespace SingleRoot

variable {m : Metadata} {a b id : ℕ}

theorem find?_path (hroot : m.SingleRoot) (hm : m.WellFormed) (h : m.Below id 0) :
    m.find? (m.path id) = some id :=
  (hm.find?_path_iff h).mpr fun c hc hne => hroot c (hm.below_root_of_below h hc) hne

theorem path_injective (hroot : m.SingleRoot) (hm : m.WellFormed) (ha : m.Below a 0)
    (hb : m.Below b 0) (h : m.path a = m.path b) : a = b := by
  have hfind := hroot.find?_path hm ha
  rw [h, hroot.find?_path hm hb] at hfind
  exact (Option.some.inj hfind).symm

end SingleRoot

/-- The path of a reachable node leads back to it exactly if neither the node nor one between
it and the root has the root's kind. Without added nodes of that kind all nodes of the
traversal are found under their paths, and no two reachable nodes have the same path. -/
theorem find_path_after (history : List Insertion) :
    (∀ id, (after history).Reaches 0 id →
      ((after history).find? ((after history).path id) = some id ↔
        ∀ c, (after history).Below id c → c ≠ 0 → ((after history).node c).kind ≠ .root)) ∧
    ((after history).SingleRoot →
      (∀ id ∈ (after history).levelOrder,
        (after history).find? ((after history).path id) = some id) ∧
      ∀ a b, (after history).Reaches 0 a → (after history).Reaches 0 b →
        (after history).path a = (after history).path b → a = b) ∧
    ((∀ i ∈ history, i.kind ≠ .root) → (after history).SingleRoot) := by
  have hm := wellFormed_after history
  refine ⟨?_, ?_, singleRoot_after⟩
  · intro id hid
    exact hm.find?_path_iff (hm.reaches_iff_below.mp hid)
  · intro hroot
    refine ⟨fun id hid => hroot.find?_path hm (hm.mem_levelOrder_iff.mp hid), ?_⟩
    intro a b ha hb
    exact hroot.path_injective hm (hm.reaches_iff_below.mp ha) (hm.reaches_iff_below.mp hb)

/-- An attribute below an added node of the root's kind is not found under its path, which is
the path of another attribute. -/
theorem find_path_after_inner_root :
    (after [.node "/" "inner" .root, .leaf "/inner/date" (.text "20240131"),
        .leaf "/date" (.text "20240201")]).find?
      ((after [.node "/" "inner" .root, .leaf "/inner/date" (.text "20240131"),
        .leaf "/date" (.text "20240201")]).path 2) ≠ some 2 ∧
    (after [.node "/" "inner" .root, .leaf "/inner/date" (.text "20240131"),
        .leaf "/date" (.text "20240201")]).find?
      ((after [.node "/" "inner" .root, .leaf "/inner/date" (.text "20240131"),
        .leaf "/date" (.text "20240201")]).path 3) = some 3 ∧
    ∀ b, (after [.group "/" "what", .leaf "/what/date" (.text "20240131")]).Reaches 0 b →
      (after [.group "/" "what", .leaf "/what/date" (.text "20240131")]).path 2 =
        (after [.group "/" "what", .leaf "/what/date" (.text "20240131")]).path b → 2 = b := by
  obtain ⟨hfind, -, -⟩ := find_path_after [.node "/" "inner" .root,
    .leaf "/inner/date" (.text "20240131"), .leaf "/date" (.text "20240201")]
  obtain ⟨-, hall, hplain⟩ := find_path_after
    [.group "/" "what", .leaf "/what/date" (.text "20240131")]
  have hm := wellFormed_after [.node "/" "inner" .root, .leaf "/inner/date" (.text "20240131"),
    .leaf "/date" (.text "20240201")]
  refine ⟨?_, ?_, ?_⟩
  · intro h
    refine (hfind 2 ?_).mp h 1 (Relation.ReflTransGen.single (by decide +kernel)) (by decide)
      (by decide +kernel)
    exact (Relation.ReflTransGen.single (b := 1) (by decide +kernel)).tail (by decide +kernel)
  · refine (hfind 3 (Relation.ReflTransGen.single (by decide +kernel))).mpr ?_
    intro c hc hne
    rcases Relation.ReflTransGen.cases_head hc with rfl | ⟨p, hparent, hrest⟩
    · decide +kernel
    · have hp : ((after [.node "/" "inner" .root, .leaf "/inner/date" (.text "20240131"),
        .leaf "/date" (.text "20240201")]).node 3).parent = some 0 := by decide +kernel
      obtain rfl := Option.some.inj (hparent.symm.trans hp)
      exact absurd (Nat.le_zero.mp (hm.le_of_below hrest)) hne
  · intro b hb
    refine (hall (hplain (by decide +kernel))).2 2 b ?_ hb
    exact (Relation.ReflTransGen.single (b := 1) (by decide +kernel)).tail (by decide +kernel)

end RadarQuery.Metadata
