import Mathlib.Data.List.Flatten
import RadarQuery.Metadata.Reference
import RadarQuery.Proofs.EarlyExit
import RadarQuery.Proofs.Metadata.Reachability

/-!
References by suffix. A path that names no source attribute selects the attributes below the
root whose own paths end with its names, whole names and level by level. The reference has
the values of the selected attributes in that order, or fails as the first of them that
cannot be read as the type; no other node has a part in it.
-/

namespace RadarQuery.Metadata

open Text

def selected (m : Metadata) (names : List String) : List (ℕ × Scalar) :=
  (List.range m.nodes.size).flatMap fun k => (m.level k).filterMap fun id =>
    (m.node id).kind.value?.bind fun value =>
      if names <:+ m.names id then some (id, value) else none

/-- Slashes in front left out, a path does not begin with a source attribute and a colon. -/
def IsPlain (path : String) : Prop :=
  ∀ start ∈ ["what/source:", "_bdb/source:"],
    ¬start.toList <+: path.toList.dropWhile (· == '/')

section Plain

theorem dropStart?_eq_some_iff {start cs rest : List Char} :
    dropStart? start cs = some rest ↔ cs = start ++ rest := by
  induction start generalizing cs with
  | nil => simp [dropStart?]
  | cons s start ih =>
    cases cs with
    | nil => simp [dropStart?]
    | cons c cs =>
      by_cases hsc : s = c
      · simp [dropStart?, hsc, ih]
      · simp [dropStart?, hsc, Ne.symm hsc]

theorem dropStart?_eq_none_iff {start cs : List Char} :
    dropStart? start cs = none ↔ ¬start <+: cs := by
  rw [Option.eq_none_iff_forall_ne_some, List.IsPrefix, not_exists]
  exact forall_congr' fun rest => not_congr (dropStart?_eq_some_iff.trans eq_comm)

theorem sourceKey?_eq_none_iff {path : String} : sourceKey? path = none ↔ IsPlain path := by
  have hwhat : "what/source:".toList = "what/source".toList ++ [':'] := by decide
  have hbdb : "_bdb/source:".toList = "_bdb/source".toList ++ [':'] := by decide
  simp only [sourceKey?, sourceAttributes, IsPlain, List.findSome?_eq_none_iff,
    Option.map_eq_none_iff, dropStart?_eq_none_iff, List.forall_mem_cons, hwhat, hbdb]
  simp

instance (path : String) : Decidable (IsPlain path) :=
  decidable_of_iff (sourceKey? path = none) sourceKey?_eq_none_iff

end Plain

section Selection

variable {m : Metadata} {names : List String} {id : ℕ} {value : Scalar}

/-- The selected nodes stand in level order. -/
theorem map_fst_selected_sublist (m : Metadata) (names : List String) :
    ((m.selected names).map Prod.fst).Sublist ((List.range m.nodes.size).flatMap m.level) := by
  rw [selected, List.map_flatMap]
  refine List.Sublist.flatMap_right _ fun k _ => ?_
  induction m.level k with
  | nil => exact List.Sublist.refl []
  | cons id ids ih =>
    rw [List.filterMap_cons]
    split
    case h_1 => exact ih.cons id
    case h_2 entry hentry =>
      obtain ⟨value, -, hsome⟩ := Option.bind_eq_some_iff.mp hentry
      split at hsome
      · cases hsome
        exact ih.cons_cons id
      · cases hsome

namespace WellFormed

theorem filter_attributes (hm : m.WellFormed) (names : List String) :
    (m.attributes.filter fun entry => names.isSuffixOf (m.names entry.1)) = m.selected names := by
  rw [attributes, hm.levelOrder_eq, List.filterMap_flatMap, List.filter_flatMap, selected]
  simp only [List.filter_filterMap]
  refine List.flatMap_congr fun k _ => List.filterMap_congr fun id _ => ?_
  cases (m.node id).kind.value? with
  | none => rfl
  | some value =>
    rw [Option.map_some, Option.filter_some, Option.bind_some]
    simp only [List.isSuffixOf_iff_suffix]

/-- What is selected is below the root, holds a value and has a path that ends with the
names. -/
theorem mem_selected_iff (hm : m.WellFormed) : (id, value) ∈ m.selected names ↔
    m.Below id 0 ∧ (m.node id).kind.value? = some value ∧ names <:+ m.names id := by
  rw [← hm.filter_attributes, List.mem_filter, mem_attributes_iff, hm.mem_levelOrder_iff,
    List.isSuffixOf_iff_suffix, and_assoc]

theorem nodup_selected (hm : m.WellFormed) (names : List String) :
    ((m.selected names).map Prod.fst).Nodup :=
  (hm.nodup_levels m.nodes.size).sublist (map_fst_selected_sublist m names)

theorem resolve_eq_mapM (hm : m.WellFormed) {path : String} (hplain : IsPlain path)
    (wanted : ScalarType) : m.resolve path wanted =
      if pathNames path = [] then .ok []
      else (m.selected (pathNames path)).mapM fun entry => wanted.coerce entry.2 := by
  rw [resolve, sourceKey?_eq_none_iff.mpr hplain, ← hm.filter_attributes]
  simp only [resolveSuffix, List.isEmpty_iff]

end WellFormed

end Selection

/-- A path without names refers to nothing. Any other path that names no source attribute has
the values of the selected attributes, one for each and in level order, if all of them can be
read as the type, and otherwise fails as the first that cannot. The selected attributes are
those that can be reached from the root and whose paths end with the names of the path. -/
theorem resolve_plain_after (history : List Insertion) {path : String} (hplain : IsPlain path)
    (wanted : ScalarType) :
    (pathNames path = [] → (after history).resolve path wanted = .ok []) ∧
    (pathNames path ≠ [] →
      ((∀ entry ∈ (after history).selected (pathNames path),
          ∃ e, wanted.coerce entry.2 = .ok e) →
        ∃ values, (after history).resolve path wanted = .ok values ∧
          ((after history).selected (pathNames path)).map (fun entry => wanted.coerce entry.2) =
            values.map .ok) ∧
      (∀ cause, (after history).resolve path wanted = .error cause ↔
        ∃ before entry rest,
          (after history).selected (pathNames path) = before ++ entry :: rest ∧
          (∀ other ∈ before, ∃ e, wanted.coerce other.2 = .ok e) ∧
          wanted.coerce entry.2 = .error cause)) ∧
    (∀ id value, (id, value) ∈ (after history).selected (pathNames path) ↔
      (after history).Reaches 0 id ∧ ((after history).node id).kind = .leaf value ∧
        pathNames path <:+ (after history).names id) ∧
    (((after history).selected (pathNames path)).map Prod.fst).Nodup ∧
    (((after history).selected (pathNames path)).map Prod.fst).Sublist
      ((List.range (after history).nodes.size).flatMap (after history).level) := by
  have hm := wellFormed_after history
  have hresolve := hm.resolve_eq_mapM hplain wanted
  refine ⟨?_, ?_, ?_, hm.nodup_selected _, map_fst_selected_sublist _ _⟩
  · intro hempty
    rw [hresolve, if_pos hempty]
  · intro hnames
    rw [hresolve, if_neg hnames]
    refine ⟨fun hall => ?_, fun cause => mapM_eq_error_iff⟩
    obtain ⟨values, hvalues⟩ := exists_mapM_eq_ok hall
    exact ⟨values, hvalues, mapM_eq_ok_iff.mp hvalues⟩
  · intro id value
    rw [hm.mem_selected_iff, hm.reaches_iff_below, NodeKind.value?_eq_some_iff]

def threeSizes : List Insertion :=
  [.group "/" "where", .leaf "/where/xsize" (.long 5), .dataset "/" "dataset1",
    .group "/dataset1" "where", .leaf "/dataset1/where/xsize" (.text "wide"),
    .leaf "/dataset1/xsize" (.text "7")]

/-- Of the two attributes that end with `where` and `xsize` the deeper one is no number. The
third has other names above its own, so reading it alone succeeds. -/
theorem resolve_plain_after_two_levels :
    (after threeSizes).resolve "where//xsize/" .long =
      .error (.typeError (.attributeValue (.text "wide") .long)) ∧
    (∃ values, (after threeSizes).resolve "/dataset1/xsize" .long = .ok values ∧
      [(.ok (.integer 7) : Except EvalError Expr)] = values.map .ok) ∧
    (after threeSizes).resolve "//" .date = .ok [] := by
  obtain ⟨-, hfails, -⟩ := resolve_plain_after threeSizes
    (show IsPlain "where//xsize/" by decide) .long
  obtain ⟨-, hreads, -⟩ := resolve_plain_after threeSizes
    (show IsPlain "/dataset1/xsize" by decide) .long
  refine ⟨((hfails (by decide)).2 _).mpr
      ⟨[(2, .long 5)], (5, .text "wide"), [], by decide +kernel, ?_, rfl⟩, ?_,
    (resolve_plain_after threeSizes (by decide) _).1 (by decide)⟩
  · intro other hother
    obtain rfl := List.mem_singleton.mp hother
    exact ⟨_, rfl⟩
  · have hselected : (after threeSizes).selected (pathNames "/dataset1/xsize") =
        [(6, .text "7")] := by
      decide +kernel
    have hcoerce : ∀ entry ∈ (after threeSizes).selected (pathNames "/dataset1/xsize"),
        ∃ e, ScalarType.long.coerce entry.2 = .ok e := by
      intro entry hentry
      rw [hselected] at hentry
      obtain rfl := List.mem_singleton.mp hentry
      exact ⟨_, rfl⟩
    obtain ⟨values, hvalues, hentries⟩ := (hreads (by decide)).1 hcoerce
    rw [hselected] at hentries
    exact ⟨values, hvalues, hentries⟩

end RadarQuery.Metadata
