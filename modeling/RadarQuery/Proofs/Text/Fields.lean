import Mathlib.Data.List.DropRight
import RadarQuery.Text.Blank
import RadarQuery.Text.Split

/-!
Fields of a text: the pieces between separators, without the blanks around them. No piece
holds the separator, and trimming takes away blanks at the two ends until none is left there.
So two trimmed fields with a separator between them that is no blank are trimmed together.
-/

namespace RadarQuery.Text

section Trim

variable {cs before after : List Char} {sep : Char}

theorem trimRight_isPrefix (cs : List Char) : trimRight cs <+: cs :=
  List.rdropWhile_prefix isBlank cs

theorem trimLeft_isSuffix (cs : List Char) : trimLeft cs <:+ cs :=
  List.dropWhile_suffix isBlank

theorem trim_isInfix (cs : List Char) : trim cs <:+: cs :=
  (trimRight_isPrefix _).isInfix.trans (trimLeft_isSuffix _).isInfix

theorem trimLeft_eq_self_iff : trimLeft cs = cs ↔ cs.head?.any isBlank = false := by
  cases cs with
  | nil => simp [trimLeft]
  | cons c cs => simp [trimLeft]

theorem trimRight_eq_self_iff : trimRight cs = cs ↔ cs.getLast?.any isBlank = false := by
  rw [← List.head?_reverse, ← trimLeft_eq_self_iff, trimRight, List.reverse_eq_iff, trimLeft]

/-- A text is trimmed if neither its first nor its last character is blank. -/
theorem trim_eq_self_iff :
    trim cs = cs ↔ cs.head?.any isBlank = false ∧ cs.getLast?.any isBlank = false := by
  rw [← trimLeft_eq_self_iff, ← trimRight_eq_self_iff]
  constructor
  · intro h
    have hlength : cs.length ≤ (trimLeft cs).length :=
      (congrArg List.length h).ge.trans (trimRight_isPrefix _).length_le
    have hleft : trimLeft cs = cs := (trimLeft_isSuffix cs).eq_of_length_le hlength
    rw [trim, hleft] at h
    exact ⟨hleft, h⟩
  · rintro ⟨hleft, hright⟩
    rw [trim, hleft, hright]

theorem trim_of_forall (h : ∀ c ∈ cs, isBlank c = false) : trim cs = cs := by
  rw [trim_eq_self_iff]
  constructor
  · cases hhead : cs.head? with
    | none => rfl
    | some c => exact h c (List.mem_of_mem_head? hhead)
  · cases hlast : cs.getLast? with
    | none => rfl
    | some c => exact h c (List.mem_of_getLast? hlast)

theorem trim_trim (cs : List Char) : trim (trim cs) = trim cs := by
  rw [trim_eq_self_iff]
  constructor
  · have hhead : (trimLeft cs).head?.any isBlank = false :=
      trimLeft_eq_self_iff.mp (List.dropWhile_idempotent isBlank cs)
    cases htrim : trim cs with
    | nil => rfl
    | cons c rest =>
      obtain ⟨tail, htail⟩ := trimRight_isPrefix (trimLeft cs)
      rw [← trim, htrim] at htail
      rw [← htail] at hhead
      exact hhead
  · exact trimRight_eq_self_iff.mp (List.rdropWhile_idempotent isBlank _)

theorem trimLeft_trim (cs : List Char) : trimLeft (trim cs) = trim cs :=
  trimLeft_eq_self_iff.mpr (trim_eq_self_iff.mp (trim_trim cs)).1

/-- Two trimmed fields around a separator are trimmed together. -/
theorem trim_append_cons (hsep : isBlank sep = false) (hbefore : trim before = before)
    (hafter : trim after = after) : trim (before ++ sep :: after) = before ++ sep :: after := by
  rw [trim_eq_self_iff] at hbefore hafter ⊢
  constructor
  · cases before with
    | nil => simpa using hsep
    | cons c cs => exact hbefore.1
  · cases after with
    | nil => simpa using hsep
    | cons c cs =>
      rw [List.getLast?_append_of_ne_nil _ (List.cons_ne_nil _ _), List.getLast?_cons_cons]
      exact hafter.2

end Trim

section Pieces

variable {sep : Char} {cs before after piece : List Char}

theorem not_mem_of_mem_splitOn (h : piece ∈ cs.splitOn sep) : sep ∉ piece := by
  induction cs generalizing piece with
  | nil =>
    obtain rfl : piece = [] := by simpa using h
    exact List.not_mem_nil
  | cons c cs ih =>
    rw [List.splitOn_cons_eq_if_modifyHead] at h
    split at h
    case isTrue =>
      rcases List.mem_cons.mp h with rfl | hrest
      · exact List.not_mem_nil
      · exact ih hrest
    case isFalse hne =>
      obtain ⟨first, rest, hsplit⟩ := List.exists_cons_of_ne_nil (List.splitOn_ne_nil sep cs)
      rw [hsplit] at h ih
      rcases List.mem_cons.mp h with rfl | hrest
      · have hfirst := ih (List.mem_cons_self ..)
        rw [List.mem_cons, not_or]
        exact ⟨fun heq => hne (beq_iff_eq.mpr heq.symm), hfirst⟩
      · exact ih (List.mem_cons_of_mem _ hrest)

/-- The first separator is the one in front of which there is none. -/
theorem cutFirst_eq_some_iff :
    cutFirst sep cs = some (before, after) ↔ cs = before ++ sep :: after ∧ sep ∉ before := by
  refine ⟨eq_of_cutFirst, ?_⟩
  rintro ⟨rfl, hnot⟩
  induction before with
  | nil => simp [cutFirst]
  | cons c before ih =>
    rw [List.mem_cons, not_or] at hnot
    obtain ⟨hc, hrest⟩ := hnot
    simp [cutFirst, Ne.symm hc, ih hrest]

theorem cutFirst_eq_none_iff : cutFirst sep cs = none ↔ sep ∉ cs := by
  constructor
  · intro h hmem
    obtain ⟨before, after, rfl, hnot⟩ := List.eq_append_cons_of_mem hmem
    rw [cutFirst_eq_some_iff.mpr ⟨rfl, hnot⟩] at h
    cases h
  · intro hnot
    rw [Option.eq_none_iff_forall_ne_some]
    rintro ⟨before, after⟩ hcut
    obtain ⟨rfl, -⟩ := eq_of_cutFirst hcut
    exact hnot (by simp)

end Pieces

end RadarQuery.Text
