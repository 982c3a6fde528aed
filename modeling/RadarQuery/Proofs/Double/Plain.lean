import RadarQuery.Proofs.Double.Literal

/-!
Every double is read back from its plain text, special values and both zeros too. The text has
no exponent, and a whole number has no point either, so that it looks like an integer; the
digits and the place of the point are those that identify the double all the same. No
character of it is blank.
-/

namespace RadarQuery.Double

section Size

variable (negative : Bool) (size : Magnitude)

theorem readDecimal_plainSize :
    readDecimal negative (plainSize size) = some (finite negative size) := by
  have hne := Nat.toDigits_ne_nil (n := (shortest size).digits) (b := 10)
  have hds : ∀ c ∈ Nat.toDigits 10 (shortest size).digits, c.isDigit :=
    fun _ => Integer.isDigit_of_mem_toDigits
  simp only [plainSize]
  split
  case isTrue hzero =>
    rw [Magnitude.rank_eq_zero_iff.mp hzero]
    exact readDecimal_whole negative [] (by simp) isDigit_of_mem_zero rfl
  case isFalse =>
    rw [readDecimal_positional negative (Or.inr rfl) hne hds, toDigits_readsBack]

theorem head?_plainSize : (plainSize size).head?.any Char.isDigit := by
  simp only [plainSize]
  split
  case isTrue => rfl
  case isFalse =>
    exact head?_positional _ Nat.toDigits_ne_nil (fun _ => Integer.isDigit_of_mem_toDigits) _

theorem mem_plainSize {c : Char} (h : c ∈ plainSize size) : c.isDigit ∨ c = '.' := by
  simp only [plainSize] at h
  split at h
  case isTrue => exact Or.inl (isDigit_of_mem_zero c h)
  case isFalse =>
    rcases mem_positional h with h | h | rfl | h
    · exact Or.inl (Integer.isDigit_of_mem_toDigits h)
    · cases h
    · exact Or.inl rfl
    · exact Or.inr h

end Size

variable (x : Double)

theorem read_plain : read x.plain = some x := by
  cases x with
  | nan => rfl
  | infinity negative => cases negative <;> rfl
  | finite negative size =>
    exact read_render negative (head?_plainSize size) (readDecimal_plainSize negative size)

theorem isBlank_of_mem_plain {c : Char} (h : c ∈ x.plain) : Text.isBlank c = false := by
  have hword {word : List Char} (hall : word.all (!Text.isBlank ·)) (hc : c ∈ word) :
      Text.isBlank c = false := by
    simpa using List.all_eq_true.mp hall c hc
  cases x with
  | nan => exact hword (by decide) h
  | infinity negative => cases negative <;> exact hword (by decide) h
  | finite negative size =>
    rcases List.mem_append.mp h with h | h
    · cases negative <;> exact hword (by decide) h
    · rcases mem_plainSize size h with h | rfl
      · exact Text.isBlank_of_isDigit h
      · decide

end RadarQuery.Double
