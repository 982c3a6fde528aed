import Mathlib.Data.List.TakeWhile
import RadarQuery.Calendar.Date
import RadarQuery.Proofs.Token.Numeral

/-!
Fields of a fixed width. A number that has no more digits than the width is written with zeros
in front, and it is read back from there whatever stands behind it. Digits of one length
are in the order of the numbers that they spell.
-/

namespace RadarQuery

namespace Integer

variable {ds as bs : List Char} {width n m : ℕ}

/-- The value of a digit in front of others. -/
theorem ofDigitChars_cons_eq (c : Char) (ds : List Char) :
    Nat.ofDigitChars 10 (c :: ds) 0 =
      10 ^ ds.length * (c.toNat - 48) + Nat.ofDigitChars 10 ds 0 := by
  rw [Nat.ofDigitChars_cons, Nat.mul_zero, Nat.zero_add, Nat.ofDigitChars_eq_ofDigitChars_zero]
  rfl

theorem ofDigitChars_lt (hds : ∀ c ∈ ds, c.isDigit) :
    Nat.ofDigitChars 10 ds 0 < 10 ^ ds.length := by
  induction ds with
  | nil => exact Nat.one_pos
  | cons c ds ih =>
    obtain ⟨hc, hrest⟩ := List.forall_mem_cons.mp hds
    have hhigh : c.toNat ≤ 57 := (Char.isDigit_iff_toNat.mp hc).2
    have hdigit : c.toNat - 48 ≤ 9 := by omega
    have hle := Nat.mul_le_mul_left (10 ^ ds.length) hdigit
    have hlt := ih hrest
    rw [ofDigitChars_cons_eq, List.length_cons, Nat.pow_succ]
    omega

/-- Digits of one length are in the order of the numbers that they spell. -/
theorem lt_iff_ofDigitChars_lt (has : ∀ c ∈ as, c.isDigit) (hbs : ∀ c ∈ bs, c.isDigit)
    (hlength : as.length = bs.length) :
    as < bs ↔ Nat.ofDigitChars 10 as 0 < Nat.ofDigitChars 10 bs 0 := by
  induction as generalizing bs with
  | nil =>
    obtain rfl : bs = [] := List.eq_nil_of_length_eq_zero hlength.symm
    simp
  | cons a as ih =>
    cases bs with
    | nil => cases hlength
    | cons b bs =>
      obtain ⟨ha, has⟩ := List.forall_mem_cons.mp has
      obtain ⟨hb, hbs⟩ := List.forall_mem_cons.mp hbs
      have hlength : as.length = bs.length := Nat.succ.inj hlength
      have halow : 48 ≤ a.toNat := (Char.isDigit_iff_toNat.mp ha).1
      have hblow : 48 ≤ b.toNat := (Char.isDigit_iff_toNat.mp hb).1
      have hasRest := ofDigitChars_lt has
      have hbsRest := ofDigitChars_lt hbs
      have hchar : a < b ↔ a.toNat < b.toNat := Iff.rfl
      rw [List.cons_lt_cons_iff, ih has hbs hlength, hchar, ← Char.toNat_inj,
        ofDigitChars_cons_eq, ofDigitChars_cons_eq, hlength]
      rw [hlength] at hasRest
      rcases Nat.lt_trichotomy a.toNat b.toNat with hlt | heq | hgt
      · have hstep := Nat.mul_le_mul_left (10 ^ bs.length)
          (show a.toNat - 48 + 1 ≤ b.toNat - 48 by omega)
        rw [Nat.mul_add, Nat.mul_one] at hstep
        omega
      · rw [heq]
        omega
      · have hstep := Nat.mul_le_mul_left (10 ^ bs.length)
          (show b.toNat - 48 + 1 ≤ a.toNat - 48 by omega)
        rw [Nat.mul_add, Nat.mul_one] at hstep
        omega

theorem isDigit_of_mem_padded {c : Char} (h : c ∈ padded width n) : c.isDigit := by
  rcases List.mem_append.mp h with hzero | hdigit
  · rw [List.eq_of_mem_replicate hzero]
    rfl
  · exact isDigit_of_mem_toDigits hdigit

theorem ofDigitChars_padded (width n : ℕ) : Nat.ofDigitChars 10 (padded width n) 0 = n := by
  rw [padded, Nat.ofDigitChars_append, Nat.ofDigitChars_replicate_zero, Nat.mul_zero,
    Nat.ofDigitChars_ten_toDigits]

theorem padded_ne_nil (width n : ℕ) : padded width n ≠ [] :=
  List.append_ne_nil_of_right_ne_nil _ Nat.toDigits_ne_nil

theorem natural?_padded (width n : ℕ) : natural? (padded width n) = some n := by
  rw [natural?_of_isDigit (padded_ne_nil width n) fun _ => isDigit_of_mem_padded,
    ofDigitChars_padded]

theorem length_padded (hwidth : 0 < width) (hn : n < 10 ^ width) :
    (padded width n).length = width := by
  have hdigits := (Nat.length_toDigits_le_iff (by decide) hwidth).mpr hn
  rw [padded, List.length_append, List.length_replicate]
  omega

theorem padded_lt_padded_iff (hwidth : 0 < width) (hn : n < 10 ^ width) (hm : m < 10 ^ width) :
    padded width n < padded width m ↔ n < m := by
  rw [lt_iff_ofDigitChars_lt (fun _ => isDigit_of_mem_padded) (fun _ => isDigit_of_mem_padded)
    ((length_padded hwidth hn).trans (length_padded hwidth hm).symm), ofDigitChars_padded,
    ofDigitChars_padded]

end Integer

namespace Calendar

open Integer

variable {width n : ℕ} {cs rest : List Char}

theorem trimLeft_of_isDigit (h : cs.head?.any Char.isDigit) : Text.trimLeft cs = cs := by
  cases cs with
  | nil => rfl
  | cons c cs => exact List.dropWhile_cons_of_neg (by simp [Text.isBlank_of_isDigit h])

theorem head?_padded_append (width n : ℕ) (rest : List Char) :
    (padded width n ++ rest).head?.any Char.isDigit := by
  obtain ⟨c, cs, hcs⟩ := List.exists_cons_of_ne_nil (padded_ne_nil width n)
  have hc : c.isDigit := isDigit_of_mem_padded (by rw [hcs]; exact List.mem_cons_self ..)
  rw [hcs]
  exact hc

/-- A field that fills its width is read up to its end. -/
theorem readField_padded (hwidth : 0 < width) (hn : n < 10 ^ width) (rest : List Char) :
    readField width (padded width n ++ rest) = some (n, rest) := by
  have hlength := length_padded hwidth hn
  have hdigits : ((padded width n ++ rest).take width).takeWhile Char.isDigit = padded width n := by
    rw [List.take_left' hlength, List.takeWhile_eq_self_iff]
    exact fun _ => isDigit_of_mem_padded
  simp only [readField, trimLeft_of_isDigit (head?_padded_append width n rest), hdigits,
    natural?_padded, Option.map_some, List.drop_left]

theorem readField_padded_self (hwidth : 0 < width) (hn : n < 10 ^ width) :
    readField width (padded width n) = some (n, []) := by
  simpa using readField_padded hwidth hn []

/-- No more digits are read than the width of a field. -/
theorem lt_of_readField (h : readField width cs = some (n, rest)) : n < 10 ^ width := by
  obtain ⟨m, hm, heq⟩ := Option.map_eq_some_iff.mp h
  obtain rfl : m = n := congrArg Prod.fst heq
  obtain ⟨-, hdigits, hvalue⟩ := natural?_eq_some_iff.mp hm
  have hlength : (((Text.trimLeft cs).take width).takeWhile Char.isDigit).length ≤ width :=
    (List.takeWhile_prefix _).length_le.trans (List.length_take_le _ _)
  calc m < 10 ^ (((Text.trimLeft cs).take width).takeWhile Char.isDigit).length :=
        hvalue ▸ ofDigitChars_lt hdigits
    _ ≤ 10 ^ width := Nat.pow_le_pow_right (by decide) hlength

end Calendar

end RadarQuery
