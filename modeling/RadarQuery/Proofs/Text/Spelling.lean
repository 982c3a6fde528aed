import Mathlib.Data.Int.Notation
import Mathlib.Data.Nat.Notation
import RadarQuery.Integer
import RadarQuery.Text.Blank
import RadarQuery.Text.Quoted

/-!
Reading back what was written: runs of characters, digits, signed integers and
quoted text. A run ends where the next character is of another class, so what
is read back does not depend on what follows it.
-/

namespace RadarQuery

namespace Text

variable {p : Char → Bool} {run rest : List Char}

/-- A run up to a character outside its class is taken whole. -/
theorem takeWhile_run (hrun : ∀ c ∈ run, p c) (hrest : rest.head?.any p = false) :
    (run ++ rest).takeWhile p = run := by
  rw [List.takeWhile_append_of_pos hrun]
  cases rest with
  | nil => simp
  | cons c cs =>
    have hc : ¬p c := by simpa using hrest
    rw [List.takeWhile_cons_of_neg hc, List.append_nil]

theorem dropWhile_run (hrun : ∀ c ∈ run, p c) (hrest : rest.head?.any p = false) :
    (run ++ rest).dropWhile p = rest := by
  rw [List.dropWhile_append_of_pos hrun]
  cases rest with
  | nil => rfl
  | cons c cs =>
    have hc : ¬p c := by simpa using hrest
    exact List.dropWhile_cons_of_neg hc

theorem isBlank_of_isDigit {c : Char} (hc : c.isDigit) : isBlank c = false := by
  obtain ⟨hlow, hhigh⟩ := Char.isDigit_iff_toNat.mp hc
  have hlow : 48 ≤ c.toNat := hlow
  have hhigh : c.toNat ≤ 57 := hhigh
  simp [isBlank, blankRanges]
  omega

namespace Quoted

/-- Outside the escapes a character stands for itself. -/
theorem read_plain {c : Char} (hquote : c ≠ '"') (hslash : c ≠ '\\') (rest : List Char) :
    read (c :: rest) = (read rest).after c 1 := by
  rw [read.eq_def]
  split <;> simp_all

theorem read_escape_append (c : Char) (rest : List Char) :
    read (escape c ++ rest) = (read rest).after c (escape c).length := by
  unfold escape
  split
  case h_6 hquote hslash _ _ _ => exact read_plain hquote hslash rest
  all_goals rfl

/-- Escaped text up to its closing quote is read as the text. -/
theorem read_flatMap_escape (text rest : List Char) :
    read (text.flatMap escape ++ '"' :: rest) =
      .closed text ((text.flatMap escape).length + 1) rest := by
  induction text with
  | nil => rfl
  | cons c text ih =>
    rw [List.flatMap_cons, List.append_assoc, read_escape_append, ih, Reading.after,
      List.length_append]
    congr 1
    omega

end Quoted

end Text

namespace Integer

theorem isDigit_of_mem_toDigits {n : ℕ} {c : Char} (h : c ∈ Nat.toDigits 10 n) : c.isDigit :=
  Nat.isDigit_of_mem_toDigits (by decide) (by decide) h

/-- A digit differs from every character that is none. -/
theorem ne_of_isDigit {c d : Char} (hc : c.isDigit) (hd : d.isDigit = false) : c ≠ d := by
  intro h
  rw [h, hd] at hc
  cases hc

theorem natural?_of_isDigit {ds : List Char} (hne : ds ≠ []) (hds : ∀ c ∈ ds, c.isDigit) :
    natural? ds = some (Nat.ofDigitChars 10 ds 0) := by
  have hall : ds.all Char.isDigit := List.all_eq_true.mpr hds
  simp [natural?, hall, hne]

theorem natural?_toDigits (n : ℕ) : natural? (Nat.toDigits 10 n) = some n := by
  rw [natural?_of_isDigit Nat.toDigits_ne_nil (fun _ => isDigit_of_mem_toDigits),
    Nat.ofDigitChars_ten_toDigits]

/-- A digit is no sign. -/
theorem takeSign_of_isDigit {c : Char} (hc : c.isDigit) (cs : List Char) :
    takeSign (c :: cs) = (false, c :: cs) := by
  unfold takeSign
  split
  · simp_all [Char.isDigit]
  · simp_all [Char.isDigit]
  · rfl

theorem takeSign_toDigits (n : ℕ) :
    takeSign (Nat.toDigits 10 n) = (false, Nat.toDigits 10 n) := by
  obtain ⟨c, cs, hcs⟩ := List.exists_cons_of_ne_nil (Nat.toDigits_ne_nil (n := n) (b := 10))
  rw [hcs]
  exact takeSign_of_isDigit (isDigit_of_mem_toDigits (by rw [hcs]; exact List.mem_cons_self ..)) cs

/-- A sign and digits, as an integer is written. -/
theorem takeSign_chars (n : ℤ) :
    takeSign (chars n) = (decide (n < 0), Nat.toDigits 10 n.natAbs) := by
  unfold chars
  split
  case isTrue h => simp [takeSign, h]
  case isFalse h => simp [takeSign_toDigits, h]

theorem mem_chars {n : ℤ} {c : Char} (h : c ∈ chars n) : c = '-' ∨ c.isDigit := by
  unfold chars at h
  split at h
  · exact (List.mem_cons.mp h).imp id isDigit_of_mem_toDigits
  · exact Or.inr (isDigit_of_mem_toDigits h)

theorem narrow?_toInt (n : Int64) : narrow? n.toInt = some n := by
  rw [narrow?, if_pos ⟨n.minValue_le_toInt, n.toInt_le⟩, Int64.ofInt_toInt]

theorem withSign_natAbs (n : ℤ) : withSign (decide (n < 0)) n.natAbs = n := by
  by_cases h : n < 0
  · simp only [withSign, h, decide_true, if_true]
    omega
  · simp only [withSign, h, decide_false, Bool.false_eq_true, if_false]
    omega

theorem read_chars (n : Int64) : read (chars n.toInt) = some n := by
  simp only [read, takeSign_chars, natural?_toDigits, Option.bind_some, withSign_natAbs,
    narrow?_toInt]

end Integer

end RadarQuery
