import Mathlib.Data.List.Range
import RadarQuery.Proofs.Metadata.History
import RadarQuery.Proofs.Metadata.Reachability

/-!
What the number of a node stands for over time. The calls that succeed return the
numbers from one on, in turn, and the node of a number keeps its name and its kind.
A node can lose its way to the root in one manner, by a call that replaces it or a
node above it, and never gets it back: an insertion starts at the root, so it finds
neither a parent nor a sibling of its node in a part that was cut off.
-/

namespace RadarQuery.Metadata

/-- The numbers that calls return, in turn. A call that fails returns none. -/
def handlesFrom (m : Metadata) : List Insertion → List ℕ
  | [] => []
  | i :: history =>
    match m.perform i with
    | .ok (id, m') => id :: m'.handlesFrom history
    | .error _ => m.handlesFrom history

def handles (history : List Insertion) : List ℕ :=
  empty.handlesFrom history

def Replaces (m : Metadata) (i : Insertion) (old : ℕ) : Prop :=
  ∃ id m' p, m.perform i = .ok (id, m') ∧ m.find? i.parentPath = some p ∧
    m.child? p i.name = some old

/-- A later state of a tree. All nodes keep their names and kinds. One that is not below the
root does not come back there, and it keeps its parent and its children too. -/
structure Extends (m m' : Metadata) : Prop where
  size_le : m.nodes.size ≤ m'.nodes.size
  name_eq : ∀ id, id < m.nodes.size → (m'.node id).name = (m.node id).name
  kind_eq : ∀ id, id < m.nodes.size → (m'.node id).kind = (m.node id).kind
  below_root : ∀ id, id < m.nodes.size → m'.Below id 0 → m.Below id 0
  node_eq : ∀ id, id < m.nodes.size → ¬m.Below id 0 → m'.node id = m.node id

theorem Extends.refl (m : Metadata) : m.Extends m :=
  ⟨Nat.le_refl _, fun _ _ => rfl, fun _ _ => rfl, fun _ _ h => h, fun _ _ _ => rfl⟩

theorem Extends.trans {m m' m'' : Metadata} (h : m.Extends m') (h' : m'.Extends m'') :
    m.Extends m'' where
  size_le := Nat.le_trans h.size_le h'.size_le
  name_eq := fun id hid =>
    (h'.name_eq id (Nat.lt_of_lt_of_le hid h.size_le)).trans (h.name_eq id hid)
  kind_eq := fun id hid =>
    (h'.kind_eq id (Nat.lt_of_lt_of_le hid h.size_le)).trans (h.kind_eq id hid)
  below_root := fun id hid hroot =>
    h.below_root id hid (h'.below_root id (Nat.lt_of_lt_of_le hid h.size_le) hroot)
  node_eq := fun id hid hcut =>
    (h'.node_eq id (Nat.lt_of_lt_of_le hid h.size_le) fun hroot =>
      hcut (h.below_root id hid hroot)).trans (h.node_eq id hid hcut)

namespace WellFormed

variable {m : Metadata} {p c id : ℕ} {name : String} {kind : NodeKind}

/-- Among the nodes that were there before, an attachment makes no new links. -/
theorem below_of_below_attach (hm : m.WellFormed) (hp : p < m.nodes.size)
    (hid : id < m.nodes.size) (h : (m.attach p name kind).Below id c) : m.Below id c := by
  induction h using Relation.ReflTransGen.head_induction_on with
  | refl => exact Relation.ReflTransGen.refl
  | head hparent _ ih =>
    rcases (hm.parent_attach_iff hp).mp hparent with ⟨rfl, -⟩ | ⟨hold, -⟩
    · exact absurd hid (Nat.lt_irrefl _)
    · exact Relation.ReflTransGen.head hold (ih (Nat.lt_trans (hm.lt_of_parent hold) hid))

/-- The parent and the replaced node are below the root, so what is not is left alone. -/
theorem extends_attach (hm : m.WellFormed) (hroot : m.Below p 0) (hp : p < m.nodes.size) :
    m.Extends (m.attach p name kind) where
  size_le := by
    rw [size_attach]
    omega
  name_eq := fun id hid => hm.name_attach hp (Nat.ne_of_lt hid)
  kind_eq := fun id hid => hm.kind_attach hp (Nat.ne_of_lt hid)
  below_root := fun id hid h => hm.below_of_below_attach hp hid h
  node_eq := by
    intro id hid hcut
    have hparent : id ≠ p := by
      rintro rfl
      exact hcut hroot
    have hreplaced : m.child? p name ≠ some id := fun h =>
      hcut (Relation.ReflTransGen.head (hm.parent_of_child? h).1 hroot)
    rw [hm.node_attach_old hp (Nat.ne_of_lt hid)]
    simp only [if_neg hparent, if_neg hreplaced]

theorem extends_insert (hm : m.WellFormed) (i : Insertion) : m.Extends (m.insert i) := by
  rcases m.perform_cases i with ⟨cause, -, hsame⟩ | ⟨p, hfind, -, hattach⟩
  · rw [hsame]
    exact Extends.refl m
  · rw [hattach]
    exact hm.extends_attach (hm.below_of_descend hfind) (hm.find?_lt_size hfind)

/-- The replaced node loses its parent. -/
theorem parent_insert_of_replaces (hm : m.WellFormed) {i : Insertion} {old : ℕ}
    (h : m.Replaces i old) : ((m.insert i).node old).parent = none := by
  obtain ⟨id, m', p, hperform, hfind, hchild⟩ := h
  obtain ⟨-, q, hfind', -, -, rfl⟩ := perform_eq_ok_iff.mp hperform
  obtain rfl : p = q := Option.some.inj (hfind.symm.trans hfind')
  rw [insert_of_ok hperform, hm.node_attach_old (hm.find?_lt_size hfind)
    (Nat.ne_of_lt (hm.child?_lt_size hchild))]
  exact if_pos hchild

theorem ne_root_of_replaces (hm : m.WellFormed) {i : Insertion} {old : ℕ}
    (h : m.Replaces i old) : old ≠ 0 ∧ old < m.nodes.size := by
  obtain ⟨id, m', p, -, -, hchild⟩ := h
  refine ⟨?_, hm.child?_lt_size hchild⟩
  rintro rfl
  exact hm.child?_ne_root hchild

end WellFormed

theorem extends_after (history later : List Insertion) :
    (after history).Extends (after (history ++ later)) := by
  induction later using List.reverseRecOn with
  | nil =>
    rw [List.append_nil]
    exact Extends.refl _
  | append_singleton later i ih =>
    rw [← List.append_assoc, after_concat]
    exact ih.trans ((wellFormed_after (history ++ later)).extends_insert i)

theorem node?_eq_some {m : Metadata} {id : ℕ} (h : id < m.nodes.size) :
    m.node? id = some (m.node id) := by
  rw [node, node?, Array.getElem?_eq_getElem h, Option.getD_some]

/-- A node that was there before is there later under its number, name and kind. -/
theorem node?_after_append (history later : List Insertion) {id : ℕ}
    (hid : id < (after history).nodes.size) :
    ∃ n, (after (history ++ later)).node? id = some n ∧
      n.name = ((after history).node id).name ∧ n.kind = ((after history).node id).kind := by
  have hlater := extends_after history later
  exact ⟨_, node?_eq_some (Nat.lt_of_lt_of_le hid hlater.size_le), hlater.name_eq id hid,
    hlater.kind_eq id hid⟩

theorem node?_after_of_perform {history : List Insertion} {i : Insertion} {id : ℕ} {m' : Metadata}
    (h : (after history).perform i = .ok (id, m')) (later : List Insertion) :
    ∃ n, (after (history ++ i :: later)).node? id = some n ∧ n.name = i.name ∧
      n.kind = i.kind := by
  have hm := wellFormed_after history
  obtain ⟨-, p, hfind, -, rfl, rfl⟩ := perform_eq_ok_iff.mp h
  have hattach : after (history ++ [i]) = (after history).attach p i.name i.kind := by
    rw [after_concat, insert_of_ok h]
  have hnew : (after (history ++ [i])).node (after history).nodes.size =
      ⟨i.name, i.kind, some p, []⟩ := by
    rw [hattach, hm.node_attach_new (hm.find?_lt_size hfind)]
  have hlt : (after history).nodes.size < (after (history ++ [i])).nodes.size := by
    rw [hattach, size_attach]
    exact Nat.lt_succ_self _
  have hkept := node?_after_append (history ++ [i]) later hlt
  rwa [hnew, List.append_assoc, List.singleton_append] at hkept

/-- The numbers follow on from the size of the tree that the calls begin with. -/
theorem handlesFrom_eq (m : Metadata) (history : List Insertion) :
    m.handlesFrom history = List.range' m.nodes.size (m.handlesFrom history).length ∧
      (history.foldl insert m).nodes.size = m.nodes.size + (m.handlesFrom history).length := by
  induction history generalizing m with
  | nil => exact ⟨rfl, rfl⟩
  | cons i history ih =>
    rw [handlesFrom, List.foldl_cons]
    rcases m.perform_cases i with ⟨cause, hperform, hsame⟩ | ⟨p, -, hperform, hattach⟩
    · rw [hperform, hsame]
      exact ih m
    · obtain ⟨hnumbers, hsize⟩ := ih (m.attach p i.name i.kind)
      rw [size_attach] at hnumbers hsize
      rw [hperform, hattach]
      refine ⟨?_, ?_⟩
      · rw [List.length_cons, List.range'_succ, ← hnumbers]
      · rw [List.length_cons, hsize]
        omega

theorem size_after (history : List Insertion) :
    (after history).nodes.size = (handles history).length + 1 := by
  have hsize := (handlesFrom_eq empty history).2
  rw [after, hsize, handles]
  exact Nat.add_comm 1 _

/-- A node without a parent that is not the root was replaced by one of the calls. -/
theorem exists_replaces {history : List Insertion} {top : ℕ} (htop : top ≠ 0)
    (hlt : top < (after history).nodes.size) (hnone : ((after history).node top).parent = none) :
    ∃ before i rest, history = before ++ i :: rest ∧ (after before).Replaces i top := by
  induction history using List.reverseRecOn with
  | nil =>
    have hone : top < 1 := hlt
    omega
  | append_singleton history i ih =>
    have hm := wellFormed_after history
    have hearlier : top < (after history).nodes.size →
        ((after history).node top).parent = none →
        ∃ before j rest, history ++ [i] = before ++ j :: rest ∧ (after before).Replaces j top := by
      intro hlt hnone
      obtain ⟨before, j, rest, hsplit, hreplaces⟩ := ih hlt hnone
      exact ⟨before, j, rest ++ [i], by rw [hsplit]; simp, hreplaces⟩
    rw [after_concat] at hlt hnone
    -- The new node has a parent, so an old one is meant, which the last call or an earlier
    -- one has cut off.
    rcases (after history).perform_cases i with ⟨cause, -, hsame⟩ | ⟨p, hfind, hperform, hattach⟩
    · rw [hsame] at hlt hnone
      exact hearlier hlt hnone
    · have hp := hm.find?_lt_size hfind
      rw [hattach] at hlt hnone
      have hne : top ≠ (after history).nodes.size := by
        rintro rfl
        rw [hm.node_attach_new hp] at hnone
        cases hnone
      rw [size_attach] at hlt
      by_cases hreplaced : (after history).child? p i.name = some top
      · exact ⟨history, i, [], rfl, _, _, p, hperform, hfind, hreplaced⟩
      · rw [hm.node_attach_old hp hne] at hnone
        simp only [if_neg hreplaced] at hnone
        exact hearlier (by omega) hnone

/-- A replaced node has no parent, and gets none later. -/
theorem parent_after_of_replaces {history later : List Insertion} {i : Insertion} {old : ℕ}
    (h : (after history).Replaces i old) :
    ((after (history ++ i :: later)).node old).parent = none := by
  have hm := wellFormed_after history
  have hstep : ((after (history ++ [i])).node old).parent = none := by
    rw [after_concat]
    exact hm.parent_insert_of_replaces h
  obtain ⟨hroot, hlt⟩ := hm.ne_root_of_replaces h
  have hcut : ¬(after (history ++ [i])).Below old 0 :=
    (wellFormed_after (history ++ [i])).not_below_root hroot hstep Relation.ReflTransGen.refl
  have hsize := (extends_after history [i]).size_le
  have hlater := (extends_after (history ++ [i]) later).node_eq old (by omega) hcut
  rw [List.append_assoc, List.singleton_append] at hlater
  rw [hlater, hstep]

theorem not_reaches_iff {history : List Insertion} {id : ℕ}
    (hid : id < (after history).nodes.size) :
    ¬(after history).Reaches 0 id ↔ ∃ before i rest top, history = before ++ i :: rest ∧
      (after before).Replaces i top ∧ (after history).Below id top := by
  have hm := wellFormed_after history
  rw [hm.reaches_iff_below]
  constructor
  · intro h
    obtain ⟨top, htop, hnone, hbelow⟩ := hm.exists_top h
    have hlt : top < (after history).nodes.size := Nat.lt_of_le_of_lt (hm.le_of_below hbelow) hid
    obtain ⟨before, i, rest, hsplit, hreplaces⟩ := exists_replaces htop hlt hnone
    exact ⟨before, i, rest, top, hsplit, hreplaces, hbelow⟩
  · rintro ⟨before, i, rest, top, rfl, hreplaces, hbelow⟩
    exact hm.not_below_root ((wellFormed_after before).ne_root_of_replaces hreplaces).1
      (parent_after_of_replaces hreplaces) hbelow

/-- Whatever is called, the handles are 1, 2, 3 and so on, and each keeps the node that the call
was given. A node that the root does not reach is or stands below one that was replaced;
nothing from the root comes to it, or to a node below it, after any later calls, and its
parent and its children are what they were. -/
theorem handles_after (history later : List Insertion) :
    handles history = List.range' 1 (handles history).length ∧
    (∀ i id m', (after history).perform i = .ok (id, m') → id = (handles history).length + 1 ∧
      ∃ n, (after (history ++ i :: later)).node? id = some n ∧ n.name = i.name ∧
        n.kind = i.kind) ∧
    (∀ id ∈ handles history, ∃ n n', (after history).node? id = some n ∧
      (after (history ++ later)).node? id = some n' ∧ n'.name = n.name ∧ n'.kind = n.kind) ∧
    (∀ id, id < (after history).nodes.size → ¬(after history).Reaches 0 id →
      (after (history ++ later)).node id = (after history).node id ∧
      ∀ c, (after (history ++ later)).Below c id → (after (history ++ later)).Unreached c) ∧
    (∀ id, id < (after history).nodes.size → (¬(after history).Reaches 0 id ↔
      ∃ before i rest top, history = before ++ i :: rest ∧ (after before).Replaces i top ∧
        (after history).Below id top)) ∧
    ∀ i old, (after history).Replaces i old →
      ((after (history ++ i :: later)).node old).parent = none := by
  have hm := wellFormed_after history
  have hnumbers : handles history = List.range' 1 (handles history).length :=
    (handlesFrom_eq empty history).1
  refine ⟨hnumbers, ?_, ?_, ?_, fun id hid => not_reaches_iff hid,
    fun i old h => parent_after_of_replaces h⟩
  · intro i id m' hperform
    obtain ⟨-, p, -, -, hid, -⟩ := perform_eq_ok_iff.mp hperform
    exact ⟨hid.trans (size_after history), node?_after_of_perform hperform later⟩
  · intro id hid
    rw [hnumbers, List.mem_range'_1, Nat.add_comm, ← size_after] at hid
    obtain ⟨n, hn, hname, hkind⟩ := node?_after_append history later hid.2
    exact ⟨_, n, node?_eq_some hid.2, hn, hname, hkind⟩
  · intro id hid hcut
    rw [hm.reaches_iff_below] at hcut
    have hextends := extends_after history later
    have hm' := wellFormed_after (history ++ later)
    refine ⟨hextends.node_eq id hid hcut, fun c hbelow => hm'.unreached fun hroot => ?_⟩
    exact hcut (hextends.below_root id hid (hm'.below_root_of_below hroot hbelow))

/-- A data set replaces the group of its name. The attribute that was in the group does not
come back with a new attribute of the same path. -/
theorem handles_after_replaced_group :
    (∃ n, (after [.group "/" "what", .leaf "/what/object" (.text "PVOL"), .dataset "" "what",
      .leaf "what/object" (.text "SCAN")]).node? 3 = some n ∧ n.name = "what" ∧
      n.kind = .dataset) ∧
    (after [.group "/" "what", .leaf "/what/object" (.text "PVOL"), .dataset "" "what",
      .leaf "what/object" (.text "SCAN")]).Unreached 2 ∧
    ((after [.group "/" "what", .leaf "/what/object" (.text "PVOL"), .dataset "" "what",
      .leaf "what/object" (.text "SCAN")]).node 1).parent = none := by
  have hperform : (after [.group "/" "what", .leaf "/what/object" (.text "PVOL")]).perform
      (.dataset "" "what") = .ok (3, _) :=
    perform_eq_ok_iff.mpr ⟨⟨by decide, by decide⟩, 0, by decide +kernel, by decide +kernel,
      by decide +kernel, rfl⟩
  have hreplaces : (after [.group "/" "what", .leaf "/what/object" (.text "PVOL")]).Replaces
      (.dataset "" "what") 1 :=
    ⟨3, _, 0, hperform, by decide +kernel, by decide +kernel⟩
  obtain ⟨-, hnew, -, -, -, hparent⟩ := handles_after
    [.group "/" "what", .leaf "/what/object" (.text "PVOL")] [.leaf "what/object" (.text "SCAN")]
  obtain ⟨-, -, -, hlater, hcut, -⟩ := handles_after [.group "/" "what",
    .leaf "/what/object" (.text "PVOL"), .dataset "" "what"] [.leaf "what/object" (.text "SCAN")]
  refine ⟨(hnew _ _ _ hperform).2, ?_, hparent _ _ hreplaces⟩
  refine (hlater 2 (by decide +kernel) ?_).2 2 Relation.ReflTransGen.refl
  exact (hcut 2 (by decide +kernel)).mpr ⟨_, _, [], 1, rfl, hreplaces,
    Relation.ReflTransGen.single (by decide +kernel)⟩

end RadarQuery.Metadata
