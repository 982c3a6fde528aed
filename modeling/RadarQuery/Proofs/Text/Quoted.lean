import RadarQuery.Proofs.Text.Spelling

/-!
What is found behind an opening quote. A text is spelled by characters that stand for
themselves and by escapes. A reading goes through the longest spelling and ends behind it:
at a quote, at a backslash in front of a letter that is no escape, or at the end of the
input, where a backslash may be left over. There is one such reading for every input.
-/

namespace RadarQuery.Text.Quoted

def escapes : List (Char × Char) :=
  [('n', '\n'), ('t', '\t'), ('r', '\r'), ('"', '"'), ('\\', '\\')]

/-- A text and a way to write it between quotes. -/
inductive Spells : List Char → List Char → Prop
  | nil : Spells [] []
  | plain {c : Char} {text spelling : List Char} : c ≠ '"' → c ≠ '\\' → Spells text spelling →
      Spells (c :: text) (c :: spelling)
  | escaped {letter c : Char} {text spelling : List Char} : (letter, c) ∈ escapes →
      Spells text spelling → Spells (c :: text) ('\\' :: letter :: spelling)

/-- How an input goes on behind an opening quote. -/
inductive Scans : List Char → Reading → Prop
  | closed {text spelling : List Char} (rest : List Char) : Spells text spelling →
      Scans (spelling ++ '"' :: rest) (.closed text (spelling.length + 1) rest)
  | badEscape {text spelling : List Char} {letter : Char} (rest : List Char) :
      Spells text spelling → (∀ c, (letter, c) ∉ escapes) →
      Scans (spelling ++ '\\' :: letter :: rest)
        (.badEscape letter (spelling.length + 1) (letter :: rest))
  | unclosed {text spelling : List Char} : Spells text spelling →
      Scans spelling (.unclosed spelling.length)
  | cut {text spelling : List Char} : Spells text spelling →
      Scans (spelling ++ ['\\']) (.unclosed (spelling.length + 1))

def Reading.behind (text : List Char) (width : ℕ) : Reading → Reading
  | closed found used rest => closed (text ++ found) (used + width) rest
  | badEscape letter used rest => badEscape letter (used + width) rest
  | unclosed used => unclosed (used + width)

section Escapes

variable {letter c : Char}

theorem unescape_eq_some_iff : unescape letter = some c ↔ (letter, c) ∈ escapes := by
  unfold unescape
  split <;> simp_all [escapes, eq_comm]

theorem unescape_eq_none_iff : unescape letter = none ↔ ∀ c, (letter, c) ∉ escapes := by
  rw [Option.eq_none_iff_forall_ne_some]
  exact forall_congr' fun c => not_congr unescape_eq_some_iff

end Escapes

section Reading

variable {cs text spelling : List Char} {r : Reading}

theorem Reading.behind_nil (r : Reading) : r.behind [] 0 = r := by
  cases r <;> rfl

theorem Reading.after_behind (c : Char) (text : List Char) (width used : ℕ) (r : Reading) :
    (r.behind text used).after c width = r.behind (c :: text) (used + width) := by
  cases r <;> simp [Reading.behind, Reading.after, Nat.add_assoc]

/-- A spelling is gone through, whatever stands behind it. -/
theorem Spells.read_append (h : Spells text spelling) (rest : List Char) :
    read (spelling ++ rest) = (read rest).behind text spelling.length := by
  induction h with
  | nil => exact (Reading.behind_nil _).symm
  | plain hquote hslash _ ih =>
    rw [List.cons_append, read_plain hquote hslash, ih, Reading.after_behind, List.length_cons]
  | @escaped letter c text spelling hescape _ ih =>
    have hletter : unescape letter = some c := unescape_eq_some_iff.mpr hescape
    rw [List.cons_append, List.cons_append, read, hletter]
    simp only [ih, Reading.after_behind, List.length_cons]

theorem Scans.eq (h : Scans cs r) : read cs = r := by
  cases h with
  | closed rest hspells =>
    rw [hspells.read_append, read, Reading.behind, List.append_nil, Nat.add_comm]
  | badEscape rest hspells hescape =>
    rw [hspells.read_append, read, unescape_eq_none_iff.mpr hescape, Reading.behind, Nat.add_comm]
  | unclosed hspells =>
    have hread := hspells.read_append []
    rwa [List.append_nil, read, Reading.behind, Nat.zero_add] at hread
  | cut hspells =>
    rw [hspells.read_append, read, Reading.behind, Nat.add_comm]

theorem Scans.plain {c : Char} (hquote : c ≠ '"') (hslash : c ≠ '\\') (h : Scans cs r) :
    Scans (c :: cs) (r.after c 1) := by
  cases h with
  | closed rest hspells => exact .closed rest (.plain hquote hslash hspells)
  | badEscape rest hspells hescape => exact .badEscape rest (.plain hquote hslash hspells) hescape
  | unclosed hspells => exact .unclosed (.plain hquote hslash hspells)
  | cut hspells => exact .cut (.plain hquote hslash hspells)

theorem Scans.escaped {letter c : Char} (hescape : (letter, c) ∈ escapes) (h : Scans cs r) :
    Scans ('\\' :: letter :: cs) (r.after c 2) := by
  cases h with
  | closed rest hspells => exact .closed rest (.escaped hescape hspells)
  | badEscape rest hspells hbad => exact .badEscape rest (.escaped hescape hspells) hbad
  | unclosed hspells => exact .unclosed (.escaped hescape hspells)
  | cut hspells => exact .cut (.escaped hescape hspells)

/-- The beginning of a spelling has no end, even if it breaks off at a backslash. -/
theorem Spells.scans_of_isPrefix (h : Spells text spelling) (hcs : cs <+: spelling) :
    Scans cs (.unclosed cs.length) := by
  induction h generalizing cs with
  | nil =>
    rw [List.prefix_nil.mp hcs]
    exact .unclosed .nil
  | @plain c _ _ hquote hslash _ ih =>
    rcases List.prefix_cons_iff.mp hcs with rfl | ⟨others, rfl, hothers⟩
    · exact .unclosed .nil
    · exact (ih hothers).plain hquote hslash
  | @escaped letter c _ _ hescape _ ih =>
    rcases List.prefix_cons_iff.mp hcs with rfl | ⟨behind, rfl, hbehind⟩
    · exact .unclosed .nil
    rcases List.prefix_cons_iff.mp hbehind with rfl | ⟨others, rfl, hothers⟩
    · exact .cut .nil
    · exact (ih hothers).escaped hescape

theorem Spells.escape {c : Char} (h : Spells text spelling) :
    Spells (c :: text) (escape c ++ spelling) := by
  unfold Quoted.escape
  split
  case h_6 hquote hslash _ _ _ => exact .plain hquote hslash h
  all_goals exact .escaped (by decide) h

/-- A text is written as one of its spellings. -/
theorem spells_flatMap_escape (text : List Char) : Spells text (text.flatMap escape) := by
  induction text with
  | nil => exact .nil
  | cons c text ih => exact ih.escape

theorem scans_read (cs : List Char) : Scans cs (read cs) := by
  fun_induction read cs with
  | case1 => exact .unclosed .nil
  | case2 rest => exact .closed rest .nil
  | case3 => exact .cut .nil
  | case4 letter rest c hletter ih => exact ih.escaped (unescape_eq_some_iff.mp hletter)
  | case5 letter rest hletter => exact .badEscape rest .nil (unescape_eq_none_iff.mp hletter)
  | case6 c rest hquote hend hpair ih =>
    refine ih.plain hquote ?_
    rintro rfl
    cases rest with
    | nil => exact hend rfl rfl
    | cons letter rest => exact hpair letter rest rfl rfl

end Reading

end RadarQuery.Text.Quoted
