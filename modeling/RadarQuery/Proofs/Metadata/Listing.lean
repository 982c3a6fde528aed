import RadarQuery.Metadata.Reference
import RadarQuery.Proofs.Metadata.Address

/-!
The listing of a tree, that is the paths and the values of its attributes in level
order, and what it decides. With no added nodes of the root's kind the value at a path
is the one that is listed under a path of the same names. So references, by suffix
or by source key, resolve alike in any two trees with the same listing.
-/

namespace RadarQuery.Metadata

open Text

def listing (m : Metadata) : List (String × Scalar) :=
  m.attributes.map fun (id, value) => (m.path id, value)

variable {m m' : Metadata}

theorem mem_listing_iff {entry : String × Scalar} :
    entry ∈ m.listing ↔ ∃ id, (id, entry.2) ∈ m.attributes ∧ m.path id = entry.1 := by
  rw [listing, List.mem_map]
  constructor
  · intro h
    obtain ⟨⟨id, value⟩, hmem, rfl⟩ := h
    exact ⟨id, hmem, rfl⟩
  · intro h
    obtain ⟨id, hmem, hpath⟩ := h
    exact ⟨(id, entry.2), hmem, Prod.ext hpath rfl⟩

/-- The value at a path is the listed one, whatever slashes the path has. -/
theorem value?_eq_some_iff (hm : m.WellFormed) (hroot : m.SingleRoot) {path : String}
    {value : Scalar} : m.value? path = some value ↔
      ∃ entry ∈ m.listing, pathNames entry.1 = pathNames path ∧ entry.2 = value := by
  rw [value?, Option.bind_eq_some_iff]
  constructor
  · intro h
    obtain ⟨id, hfind, hvalue⟩ := h
    have hbelow : m.Below id 0 := hm.below_of_descend hfind
    have hmem : (id, value) ∈ m.attributes :=
      mem_attributes_iff.mpr ⟨hm.mem_levelOrder_iff.mpr hbelow, hvalue⟩
    exact ⟨(m.path id, value), mem_listing_iff.mpr ⟨id, hmem, rfl⟩,
      hm.descend_injective (hroot.find?_path hm hbelow) hfind, rfl⟩
  · intro h
    obtain ⟨entry, hmem, hnames, rfl⟩ := h
    obtain ⟨id, hattribute, hpath⟩ := mem_listing_iff.mp hmem
    obtain ⟨hvisited, hvalue⟩ := mem_attributes_iff.mp hattribute
    have hfind := hroot.find?_path hm (hm.mem_levelOrder_iff.mp hvisited)
    refine ⟨id, ?_, hvalue⟩
    rw [find?, ← hnames, ← hpath]
    exact hfind

/-- A reference by suffix goes through the listing. -/
theorem resolveSuffix_eq (hm : m.WellFormed) (names : List String) (wanted : ScalarType) :
    m.resolveSuffix names wanted =
      if names.isEmpty then .ok []
      else
        (m.listing.filter fun entry => names.isSuffixOf (pathNames entry.1)).mapM fun entry =>
          wanted.coerce entry.2 := by
  have hkept : (fun entry : ℕ × Scalar => names.isSuffixOf (pathNames (m.path entry.1))) =
      fun entry => names.isSuffixOf (m.names entry.1) := by
    funext entry
    rw [hm.pathNames_path]
  rw [resolveSuffix, listing, List.filter_map, List.mapM_map, ← hkept]
  rfl

section Congr

variable (hm : m.WellFormed) (hm' : m'.WellFormed) (hroot : m.SingleRoot)
  (hroot' : m'.SingleRoot) (h : m.listing = m'.listing)

include hm hm' hroot hroot' h

theorem value?_congr (path : String) : m.value? path = m'.value? path := by
  apply Option.ext
  intro value
  rw [value?_eq_some_iff hm hroot, value?_eq_some_iff hm' hroot', h]

theorem resolve_congr (path : String) (wanted : ScalarType) :
    m.resolve path wanted = m'.resolve path wanted := by
  have htext : ∀ holder, m.text? holder = m'.text? holder := fun holder => by
    rw [text?, text?, value?_congr hm hm' hroot hroot' h]
  unfold resolve
  cases sourceKey? path with
  | none => exact (resolveSuffix_eq hm _ wanted).trans (h ▸ (resolveSuffix_eq hm' _ wanted).symm)
  | some reference =>
    simp only [resolveKey, htext]

theorem resolveNamed_congr (path type : String) :
    m.resolveNamed path type = m'.resolveNamed path type := by
  have hresolve : m.resolve path = m'.resolve path :=
    funext (resolve_congr hm hm' hroot hroot' h path)
  rw [resolveNamed, resolveNamed, hresolve]

end Congr

end RadarQuery.Metadata
