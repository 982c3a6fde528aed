import Mathlib.Data.List.Nodup
import RadarQuery.Proofs.Metadata.WellFormed

/-!
What the shape of a tree says about its links. No number is in two lists of
children or twice in one, and every chain of parents ends. The way up from a node
is described here as the loop that follows the parents with no bound, and it
collects the names that the recursion over smaller numbers gives.
-/

namespace RadarQuery.Metadata

def links (m : Metadata) : List ℕ :=
  (List.range m.nodes.size).flatMap fun p => (m.node p).children

/-- The loop from a node to the end of its chain of parents, with the names that it
collects. Nodes of the root's kind give none. -/
inductive Climbs (m : Metadata) : Option ℕ → List String → Prop where
  | stop : Climbs m none []
  | step {id : ℕ} {names : List String} : Climbs m (m.node id).parent names →
      Climbs m (some id) (if (m.node id).kind = .root then names else (m.node id).name :: names)

namespace WellFormed

variable {m : Metadata} {p c : ℕ}

theorem lt_of_parent (hm : m.WellFormed) (h : (m.node c).parent = some p) : p < c :=
  (hm.parent_lt (hm.mem_children_iff.mpr h)).1

theorem nodup_children (hm : m.WellFormed) (p : ℕ) : (m.node p).children.Nodup :=
  (hm.names_ne p).imp fun hne heq => hne (congrArg (fun c => (m.node c).name) heq)

theorem nodup_links (hm : m.WellFormed) : m.links.Nodup := by
  refine List.nodup_flatMap.mpr ⟨fun p _ => hm.nodup_children p, ?_⟩
  refine List.nodup_range.imp fun {p q} hne => ?_
  intro c hp hq
  rw [hm.mem_children_iff] at hp hq
  exact hne (Option.some.inj (hp.symm.trans hq))

theorem mem_links_iff (hm : m.WellFormed) : c ∈ m.links ↔ (m.node c).parent.isSome := by
  rw [links, List.mem_flatMap, Option.isSome_iff_exists]
  constructor
  · intro h
    obtain ⟨p, -, hc⟩ := h
    exact ⟨p, hm.mem_children_iff.mp hc⟩
  · intro h
    obtain ⟨p, hparent⟩ := h
    have hc := hm.mem_children_iff.mpr hparent
    exact ⟨p, List.mem_range.mpr (lt_size_of_mem_children hc), hc⟩

theorem count_links (hm : m.WellFormed) (c : ℕ) :
    m.links.count c = if (m.node c).parent.isSome then 1 else 0 := by
  by_cases hc : (m.node c).parent.isSome
  · rw [if_pos hc, List.count_eq_one_of_mem hm.nodup_links (hm.mem_links_iff.mpr hc)]
  · rw [if_neg hc, List.count_eq_zero_of_not_mem fun hmem => hc (hm.mem_links_iff.mp hmem)]

/-- A node above another one has a smaller number. -/
theorem lt_of_transGen (hm : m.WellFormed)
    (h : Relation.TransGen (fun c p => (m.node c).parent = some p) c p) : p < c := by
  induction h with
  | single hparent => exact hm.lt_of_parent hparent
  | tail _ hparent ih => exact Nat.lt_trans (hm.lt_of_parent hparent) ih

theorem climbs_namesUp (hm : m.WellFormed) (id : ℕ) : m.Climbs (some id) (m.namesUp id) := by
  induction id using Nat.strongRecOn with
  | ind id ih =>
    rw [namesUp]
    refine Climbs.step ?_
    cases hparent : (m.node id).parent with
    | none => exact Climbs.stop
    | some p =>
      have hlt : p < id := hm.lt_of_parent hparent
      simp only [if_pos hlt]
      exact ih p hlt

end WellFormed

/-- Every history of insertions, whatever the calls do, gives a tree of that shape. Each
node with a parent is listed once in all lists of children together, no chain of
parents comes back to where it began, and the loop up from any node ends. -/
theorem shape_after (history : List Insertion) :
    (after history).WellFormed ∧
      (∀ c, (after history).links.count c =
        if ((after history).node c).parent.isSome then 1 else 0) ∧
      (∀ id, ¬Relation.TransGen (fun c p => ((after history).node c).parent = some p) id id) ∧
      ∀ id, ∃ collected, (after history).Climbs (some id) collected ∧
        (after history).names id = collected.reverse := by
  have hm := wellFormed_after history
  refine ⟨hm, hm.count_links, fun id hcycle => ?_, fun id => ?_⟩
  · exact absurd (hm.lt_of_transGen hcycle) (Nat.lt_irrefl id)
  · exact ⟨_, hm.climbs_namesUp id, rfl⟩

end RadarQuery.Metadata
