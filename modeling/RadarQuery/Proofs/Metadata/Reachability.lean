import RadarQuery.Proofs.Metadata.Levels
import RadarQuery.Proofs.Metadata.Lookup

/-!
Which nodes can be reached from the root. Walking down by children, going down by
names and going up by parents come to the same nodes, the traversal visits these and
no others, and a node that is cut off takes all nodes below it with it.
-/

namespace RadarQuery.Metadata

def Reaches (m : Metadata) : ℕ → ℕ → Prop :=
  Relation.ReflTransGen fun p c => c ∈ (m.node p).children

/-- Nothing that starts at the root comes to the node: no walk, no path, no traversal. -/
structure Unreached (m : Metadata) (id : ℕ) : Prop where
  not_reaches : ¬m.Reaches 0 id
  descend_ne : ∀ names, m.descend 0 names ≠ some id
  find?_ne : ∀ path, m.find? path ≠ some id
  not_visited : id ∉ m.levelOrder
  not_listed : ∀ value, (id, value) ∉ m.attributes

theorem mem_attributes_iff {m : Metadata} {id : ℕ} {value : Scalar} :
    (id, value) ∈ m.attributes ↔ id ∈ m.levelOrder ∧ (m.node id).kind.value? = some value := by
  rw [attributes, List.mem_filterMap]
  constructor
  · intro h
    obtain ⟨c, hc, hvalue⟩ := h
    obtain ⟨v, hv, heq⟩ := Option.map_eq_some_iff.mp hvalue
    obtain ⟨rfl, rfl⟩ := Prod.mk.inj heq
    exact ⟨hc, hv⟩
  · intro h
    exact ⟨id, h.1, by rw [h.2, Option.map_some]⟩

namespace WellFormed

variable {m : Metadata} {p c id : ℕ} {name : String} {kind : NodeKind}

theorem reaches_iff_below (hm : m.WellFormed) : m.Reaches p c ↔ m.Below c p := by
  have hlinks : (fun p c => c ∈ (m.node p).children) =
      Function.swap fun c p => (m.node c).parent = some p := by
    funext p c
    exact propext hm.mem_children_iff
  rw [Reaches, hlinks]
  exact Relation.reflTransGen_swap

theorem below_of_descend (hm : m.WellFormed) {names : List String}
    (h : m.descend p names = some c) : m.Below c p := by
  induction names generalizing p with
  | nil =>
    cases h
    exact Relation.ReflTransGen.refl
  | cons name names ih =>
    obtain ⟨d, hchild, hrest⟩ := Option.bind_eq_some_iff.mp h
    exact (ih hrest).tail (hm.parent_of_child? hchild).1

theorem le_of_below (hm : m.WellFormed) (h : m.Below c p) : p ≤ c := by
  induction h with
  | refl => exact Nat.le_refl c
  | tail _ hparent ih => exact Nat.le_trans (Nat.le_of_lt (hm.lt_of_parent hparent)) ih

theorem lt_size_of_below_root (hm : m.WellFormed) (h : m.Below id 0) : id < m.nodes.size := by
  obtain ⟨k, hk⟩ := hm.mem_levelOrder_iff_level.mp (hm.mem_levelOrder_iff.mpr h)
  exact (hm.le_of_mem_level hk).2

/-- A chain of parents that passes a node and comes to the root goes on to the root from
that node. -/
theorem below_root_of_below (hm : m.WellFormed) (hroot : m.Below c 0) (h : m.Below c p) :
    m.Below p 0 := by
  induction h using Relation.ReflTransGen.head_induction_on with
  | refl => exact hroot
  | head hparent _ ih =>
    rcases Relation.ReflTransGen.cases_head hroot with rfl | ⟨q, hparent', hroot'⟩
    · rw [hm.parent_root] at hparent
      cases hparent
    · obtain rfl := Option.some.inj (hparent.symm.trans hparent')
      exact ih hroot'

theorem unreached (hm : m.WellFormed) (h : ¬m.Below id 0) : m.Unreached id where
  not_reaches := fun hreaches => h (hm.reaches_iff_below.mp hreaches)
  descend_ne := fun _ hdescend => h (hm.below_of_descend hdescend)
  find?_ne := fun _ hfind => h (hm.below_of_descend hfind)
  not_visited := fun hmem => h (hm.mem_levelOrder_iff.mp hmem)
  not_listed := fun _ hmem => h (hm.mem_levelOrder_iff.mp (mem_attributes_iff.mp hmem).1)

/-- What is not reached from the root lies below a node that has lost its parent. -/
theorem exists_top (hm : m.WellFormed) (h : ¬m.Below id 0) :
    ∃ top, top ≠ 0 ∧ (m.node top).parent = none ∧ m.Below id top := by
  induction id using Nat.strongRecOn with
  | ind id ih =>
    cases hparent : (m.node id).parent with
    | none =>
      refine ⟨id, ?_, hparent, Relation.ReflTransGen.refl⟩
      rintro rfl
      exact h Relation.ReflTransGen.refl
    | some p =>
      obtain ⟨top, htop, hnone, hbelow⟩ := ih p (hm.lt_of_parent hparent) fun hp =>
        h (Relation.ReflTransGen.head hparent hp)
      exact ⟨top, htop, hnone, Relation.ReflTransGen.head hparent hbelow⟩

end WellFormed

end RadarQuery.Metadata
