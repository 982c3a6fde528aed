import RadarQuery.Text.Split

/-!
The cut of a text at its last separator and the names along a path. Two paths with
a slash between them have the names of both, one after the other, so slashes that
are doubled or stand at an end add nothing.
-/

namespace RadarQuery.Text

theorem eq_of_cutLast {sep : Char} {cs before after : List Char}
    (h : cutLast sep cs = some (before, after)) : cs = before ++ sep :: after := by
  induction cs generalizing before with
  | nil => simp [cutLast] at h
  | cons c cs ih =>
    rw [cutLast] at h
    cases hcut : cutLast sep cs with
    | some parts =>
      obtain ⟨left, right⟩ := parts
      rw [hcut] at h
      simp only [Option.some.injEq, Prod.mk.injEq] at h
      obtain ⟨rfl, rfl⟩ := h
      rw [ih hcut, List.cons_append]
    | none =>
      rw [hcut] at h
      by_cases hc : c = sep
      · simp only [if_pos hc, Option.some.injEq, Prod.mk.injEq] at h
        obtain ⟨rfl, rfl⟩ := h
        rw [hc, List.nil_append]
      · simp [hc] at h

theorem pathNames_slash (before after : List Char) :
    pathNames (String.ofList (before ++ '/' :: after)) =
      pathNames (String.ofList before) ++ pathNames (String.ofList after) := by
  simp only [pathNames, String.toList_ofList, List.splitOn_append_cons_self, List.filter_append,
    List.map_append]

theorem pathNames_empty : pathNames "" = [] := by
  decide

theorem pathNames_singleton {name : List Char} (hne : name ≠ []) (hslash : '/' ∉ name) :
    pathNames (String.ofList name) = [String.ofList name] := by
  simp [pathNames, List.splitOn_eq_singleton hslash, hne]

/-- Slashes at the end of a path add no names. -/
theorem pathNames_append_slashes {slashes : List Char} (h : ∀ c ∈ slashes, c = '/')
    (cs : List Char) :
    pathNames (String.ofList (cs ++ slashes)) = pathNames (String.ofList cs) := by
  induction slashes generalizing cs with
  | nil => rw [List.append_nil]
  | cons c slashes ih =>
    obtain ⟨rfl, hrest⟩ := List.forall_mem_cons.mp h
    have hnone : pathNames (String.ofList slashes) = [] := ih hrest []
    rw [pathNames_slash, hnone, List.append_nil]

/-- Names without slashes, none of them empty, are the names along the path made of them. -/
theorem pathNames_join {names : List String} (h : ∀ n ∈ names, n ≠ "" ∧ '/' ∉ n.toList) :
    pathNames ("/" ++ "/".intercalate names) = names := by
  have hpath : "/" ++ "/".intercalate names =
      String.ofList ([] ++ '/' :: ['/'].intercalate (names.map String.toList)) := by
    rw [← String.ofList_toList (s := "/" ++ _), String.toList_append, String.toList_intercalate]
    rfl
  have hnone : pathNames (String.ofList []) = [] := by decide
  rw [hpath, pathNames_slash, hnone, List.nil_append]
  cases names with
  | nil => exact hnone
  | cons first rest =>
    have hslash : ∀ l ∈ (first :: rest).map String.toList, '/' ∉ l := by
      intro l hl
      obtain ⟨n, hn, rfl⟩ := List.mem_map.mp hl
      exact (h n hn).2
    have hnonempty : ∀ l ∈ (first :: rest).map String.toList, (!l.isEmpty) = true := by
      intro l hl
      obtain ⟨n, hn, rfl⟩ := List.mem_map.mp hl
      simpa using (h n hn).1
    rw [pathNames, String.toList_ofList, List.splitOn_intercalate '/' hslash (by simp),
      List.filter_eq_self.mpr hnonempty, List.map_map]
    simp

end RadarQuery.Text
