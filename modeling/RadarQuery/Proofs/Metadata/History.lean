import Mathlib.Data.List.Induction
import RadarQuery.Proofs.Metadata.WellFormed

/-!
Histories of insertions, call by call. Every call is the addition of one node, given
by the path of its parent, its name and its kind, and a call that succeeds attaches
that node under the next number. The tree after more calls is built from the tree
before them.
-/

namespace RadarQuery.Metadata

namespace Insertion

def parentPath : Insertion → String
  | node parentPath _ _ | group parentPath _ | dataset parentPath _ => parentPath
  | leaf path _ => (splitPath path).1

def name : Insertion → String
  | node _ name _ | group _ name | dataset _ name => name
  | leaf path _ => (splitPath path).2

def kind : Insertion → NodeKind
  | node _ _ kind => kind
  | group _ _ => .group
  | dataset _ _ => .dataset
  | leaf _ value => .leaf value

end Insertion

section Call

variable {m m' : Metadata} {i : Insertion} {id : ℕ} {cause : MetadataError}

theorem perform_eq_add (m : Metadata) (i : Insertion) :
    m.perform i = m.add i.parentPath i.name i.kind := by
  cases i <;> rfl

theorem perform_eq_ok_iff : m.perform i = .ok (id, m') ↔
    IsName i.name ∧ ∃ p, m.find? i.parentPath = some p ∧ (m.node p).kind.isContainer ∧
      id = m.nodes.size ∧ m' = m.attach p i.name i.kind := by
  rw [perform_eq_add, add_eq_ok_iff]

theorem insert_of_ok (h : m.perform i = .ok (id, m')) : m.insert i = m' := by
  rw [Metadata.insert, h]

theorem insert_of_error (h : m.perform i = .error cause) : m.insert i = m := by
  rw [Metadata.insert, h]

/-- A call fails and changes nothing, or attaches its node under the next number. -/
theorem perform_cases (m : Metadata) (i : Insertion) :
    (∃ cause, m.perform i = .error cause ∧ m.insert i = m) ∨
      ∃ p, m.find? i.parentPath = some p ∧
        m.perform i = .ok (m.nodes.size, m.attach p i.name i.kind) ∧
        m.insert i = m.attach p i.name i.kind := by
  cases hperform : m.perform i with
  | error cause => exact Or.inl ⟨cause, rfl, insert_of_error hperform⟩
  | ok result =>
    obtain ⟨id, m'⟩ := result
    obtain ⟨-, p, hfind, -, rfl, rfl⟩ := perform_eq_ok_iff.mp hperform
    exact Or.inr ⟨p, hfind, rfl, insert_of_ok hperform⟩

end Call

theorem after_append (history later : List Insertion) :
    after (history ++ later) = later.foldl insert (after history) :=
  List.foldl_append

theorem after_concat (history : List Insertion) (i : Insertion) :
    after (history ++ [i]) = (after history).insert i :=
  after_append history [i]

/-- A tree has no nodes of the root's kind but the root if none was asked for. -/
theorem kind_ne_root_after {history : List Insertion} (h : ∀ i ∈ history, i.kind ≠ .root) {id : ℕ}
    (hid : id ≠ 0) (hlt : id < (after history).nodes.size) :
    ((after history).node id).kind ≠ .root := by
  induction history using List.reverseRecOn generalizing id with
  | nil =>
    have hone : id < 1 := hlt
    omega
  | append_singleton history i ih =>
    obtain ⟨hbefore, hi⟩ := List.forall_mem_append.mp h
    have hm := wellFormed_after history
    rw [after_concat] at hlt ⊢
    rcases (after history).perform_cases i with ⟨cause, -, hsame⟩ | ⟨p, hfind, -, hattach⟩
    · rw [hsame] at hlt ⊢
      exact ih hbefore hid hlt
    · have hp : p < (after history).nodes.size := hm.find?_lt_size hfind
      rw [hattach, size_attach] at hlt
      rw [hattach]
      rcases eq_or_ne id (after history).nodes.size with rfl | hold
      · rw [hm.node_attach_new hp]
        exact hi i (List.mem_singleton_self i)
      · rw [hm.kind_attach hp hold]
        exact ih hbefore hid (by omega)

end RadarQuery.Metadata
