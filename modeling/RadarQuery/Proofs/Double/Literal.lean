import RadarQuery.Double.Layout
import RadarQuery.Double.Read
import RadarQuery.Proofs.Double.Rounding
import RadarQuery.Proofs.Text.Spelling

/-!
Every finite double is read back from its literal. The digits that were chosen
read back, since that is how they were chosen or because they are all the digits
there are, and the place of the point only moves zeros between the digits and
the power of ten.
-/

namespace RadarQuery.Double

section Digits

variable (negative : Bool) (size : Magnitude)

theorem ofDecimal_strip (fuel : ℕ) (d : Digits) :
    ofDecimal negative (d.strip fuel).digits (d.strip fuel).power =
      ofDecimal negative d.digits d.power := by
  induction fuel generalizing d with
  | zero => rfl
  | succ fuel ih =>
    unfold Digits.strip
    split
    case isTrue h =>
      have hdigits : d.digits / 10 * 10 ^ 1 = d.digits := by omega
      rw [ih, ← hdigits, ofDecimal_mul_ten_pow, hdigits]
      rfl
    case isFalse => rfl

theorem ofDecimal_exactDigits :
    ofDecimal negative (exactDigits size).digits (exactDigits size).power =
      finite negative size := by
  unfold exactDigits
  rw [ofDecimal_strip, ofDecimal_eq_ofQuotient, show (-1074 : ℤ).toNat = 0 by decide,
    show (- -1074 : ℤ).toNat = 1074 by decide, Nat.pow_zero, Nat.mul_one]
  unfold unitsPerOne
  generalize 1074 = n
  rw [Nat.mul_assoc, Nat.pow_eq, Nat.pow_eq, ← Nat.mul_pow]
  exact ofQuotient_units negative size (Nat.pow_pos (by decide))

theorem readsBack_of_onGrid {power : ℤ} {d : Digits} (h : onGrid size power = some d) :
    d.readsBack size := by
  simp only [onGrid] at h
  split at h
  case h_1 hlower hupper =>
    split at h <;> cases h
    · exact hlower
    · exact hupper
  case h_2 hlower _ => exact Option.some.inj h ▸ hlower
  case h_3 _ hupper => exact Option.some.inj h ▸ hupper
  case h_4 => cases h

/-- The digits come from a grid on which they read back, or they are all there are. -/
theorem readsBack_shortest_or :
    (shortest size).readsBack size ∨ shortest size = exactDigits size := by
  simp only [shortest]
  generalize hfound : List.findSome? _ (List.range 17) = found
  cases found with
  | none => exact Or.inr (Option.getD_none)
  | some d =>
    obtain ⟨count, _, hgrid⟩ := List.exists_of_findSome?_eq_some hfound
    exact Or.inl (readsBack_of_onGrid size hgrid)

theorem ofDecimal_shortest :
    ofDecimal negative (shortest size).digits (shortest size).power = finite negative size := by
  rcases readsBack_shortest_or size with hback | hexact
  · simp only [Digits.readsBack, decide_eq_true_eq] at hback
    exact ofDecimal_eq_finite_iff.mpr hback
  · rw [hexact, ofDecimal_exactDigits]

end Digits

section Numeral

variable (negative : Bool) {ds fs : List Char} (rest : List Char)

theorem readExponent_chars (exponent : ℤ) :
    readExponent ('e' :: Integer.chars exponent) = some exponent := by
  simp [readExponent, Integer.takeSign_chars, Integer.natural?_toDigits, Integer.withSign_natAbs]

theorem takeMantissa_point (hds : ∀ c ∈ ds, c.isDigit) (hfs : ∀ c ∈ fs, c.isDigit)
    (hrest : rest.head?.any Char.isDigit = false) :
    takeMantissa (ds ++ '.' :: (fs ++ rest)) = (ds, fs, rest) := by
  have hpoint : ('.' :: (fs ++ rest)).head?.any Char.isDigit = false := by rfl
  simp only [takeMantissa, Text.takeWhile_run hds hpoint, Text.dropWhile_run hds hpoint,
    Text.takeWhile_run hfs hrest, Text.dropWhile_run hfs hrest]

theorem takeMantissa_whole (hds : ∀ c ∈ ds, c.isDigit)
    (hrest : rest.head?.any (fun c => c.isDigit || c == '.') = false) :
    takeMantissa (ds ++ rest) = (ds, [], rest) := by
  have hdigit : rest.head?.any Char.isDigit = false := by
    cases rest <;> simp_all
  simp only [takeMantissa, Text.takeWhile_run hds hdigit, Text.dropWhile_run hds hdigit]
  split
  · simp at hrest
  · rfl

/-- A numeral with a point: the digits on both sides of it count, and those after it
are divided off. -/
theorem readDecimal_point (hne : ds ≠ []) (hds : ∀ c ∈ ds, c.isDigit)
    (hfs : ∀ c ∈ fs, c.isDigit) (hrest : rest.head?.any Char.isDigit = false) :
    readDecimal negative (ds ++ '.' :: (fs ++ rest)) =
      (readExponent rest).map fun exponent =>
        ofDecimal negative (Nat.ofDigitChars 10 (ds ++ fs) 0) (exponent - fs.length) := by
  have hdigits : Integer.natural? (ds ++ fs) = some (Nat.ofDigitChars 10 (ds ++ fs) 0) := by
    apply Integer.natural?_of_isDigit (by simp [hne])
    intro c hc
    exact (List.mem_append.mp hc).elim (hds c) (hfs c)
  simp only [readDecimal, takeMantissa_point rest hds hfs hrest, hdigits, Option.bind_some]

/-- A numeral without a point. -/
theorem readDecimal_whole (hne : ds ≠ []) (hds : ∀ c ∈ ds, c.isDigit)
    (hrest : rest.head?.any (fun c => c.isDigit || c == '.') = false) :
    readDecimal negative (ds ++ rest) =
      (readExponent rest).map (ofDecimal negative (Nat.ofDigitChars 10 ds 0)) := by
  simp [readDecimal, takeMantissa_whole rest hds hrest, Integer.natural?_of_isDigit hne hds]

end Numeral

section Layout

variable (negative : Bool) {digits : List Char}

theorem isDigit_of_mem_zero : ∀ c ∈ ['0'], c.isDigit := by
  intro c hc
  rw [List.mem_singleton.mp hc]
  rfl

theorem isDigit_of_mem_replicate {k : ℕ} {c : Char} (h : c ∈ List.replicate k '0') :
    c.isDigit := by
  rw [List.eq_of_mem_replicate h]
  decide

theorem ofDigitChars_zeros_append (k : ℕ) :
    Nat.ofDigitChars 10 (List.replicate k '0' ++ digits) 0 = Nat.ofDigitChars 10 digits 0 := by
  rw [Nat.ofDigitChars_append, Nat.ofDigitChars_replicate_zero, Nat.mul_zero]

theorem ofDigitChars_append_zeros (k : ℕ) :
    Nat.ofDigitChars 10 (digits ++ List.replicate k '0') 0 =
      Nat.ofDigitChars 10 digits 0 * 10 ^ k := by
  rw [Nat.ofDigitChars_append, Nat.ofDigitChars_replicate_zero, Nat.mul_comm]

/-- Digits that end before the point: the zeros up to it belong to the power. -/
theorem readDecimal_zeros_after {whole : List Char} (hwhole : whole = ['.', '0'] ∨ whole = [])
    (hne : digits ≠ []) (hds : ∀ c ∈ digits, c.isDigit) (k : ℕ) :
    readDecimal negative (digits ++ List.replicate k '0' ++ whole) =
      some (ofDecimal negative (Nat.ofDigitChars 10 digits 0) k) := by
  have hne' : digits ++ List.replicate k '0' ≠ [] := by simp [hne]
  have hds' : ∀ c ∈ digits ++ List.replicate k '0', c.isDigit := fun c hc =>
    (List.mem_append.mp hc).elim (hds c) isDigit_of_mem_replicate
  rcases hwhole with rfl | rfl
  · have hread := readDecimal_point negative [] hne' hds' isDigit_of_mem_zero rfl
    rw [List.append_nil] at hread
    rw [hread, List.append_assoc, ← List.replicate_succ', ofDigitChars_append_zeros]
    simp only [readExponent, Option.map_some, List.length_singleton]
    rw [ofDecimal_mul_ten_pow]
    congr 2
    omega
  · rw [readDecimal_whole negative [] hne' hds' rfl, ofDigitChars_append_zeros]
    simp only [readExponent, Option.map_some]
    rw [ofDecimal_mul_ten_pow]
    congr 2
    omega

/-- Wherever the point is put, its place and the digits give the same number. -/
theorem readDecimal_positional {whole : List Char} (hwhole : whole = ['.', '0'] ∨ whole = [])
    (hne : digits ≠ []) (hds : ∀ c ∈ digits, c.isDigit) (power : ℤ) :
    readDecimal negative (positional whole digits (power + digits.length)) =
      some (ofDecimal negative (Nat.ofDigitChars 10 digits 0) power) := by
  unfold positional
  split
  case isTrue hfraction =>
    generalize hk : (power + digits.length).natAbs = k
    have hfs : ∀ c ∈ List.replicate k '0' ++ digits, c.isDigit := fun c hc =>
      (List.mem_append.mp hc).elim isDigit_of_mem_replicate (hds c)
    have hread := readDecimal_point negative [] (by simp) isDigit_of_mem_zero hfs rfl
    simp only [List.append_nil, List.singleton_append] at hread
    rw [hread, ← List.cons_append, ← List.replicate_succ, ofDigitChars_zeros_append]
    simp only [readExponent, Option.map_some, List.length_append, List.length_replicate]
    congr 2
    omega
  case isFalse hpoint =>
    split
    case isTrue hlarge =>
      rw [readDecimal_zeros_after negative hwhole hne hds]
      congr 2
      omega
    case isFalse hsmall =>
      generalize hk : (power + digits.length).natAbs = k
      have hwhole : digits.take k ≠ [] := by
        simp only [ne_eq, List.take_eq_nil_iff, hne, or_false]
        omega
      have hds' : ∀ c ∈ digits.take k, c.isDigit := fun c hc => hds c (List.mem_of_mem_take hc)
      have hfs : ∀ c ∈ digits.drop k, c.isDigit := fun c hc => hds c (List.mem_of_mem_drop hc)
      have hread := readDecimal_point negative [] hwhole hds' hfs rfl
      rw [List.append_nil, List.take_append_drop] at hread
      rw [hread]
      simp only [readExponent, Option.map_some, List.length_drop]
      congr 2
      omega

/-- One digit, a point before the others, and the power that makes up for it. -/
theorem readDecimal_scientific (hne : digits ≠ []) (hds : ∀ c ∈ digits, c.isDigit) (power : ℤ) :
    readDecimal negative (scientific digits (power + digits.length - 1)) =
      some (ofDecimal negative (Nat.ofDigitChars 10 digits 0) power) := by
  obtain ⟨d, ds, rfl⟩ := List.exists_cons_of_ne_nil hne
  generalize hexponent : power + (d :: ds).length - 1 = exponent
  have hchars : 'e' :: (if exponent < 0 then ['-'] else []) ++ Nat.toDigits 10 exponent.natAbs =
      'e' :: Integer.chars exponent := by
    unfold Integer.chars
    split <;> rfl
  have hd : ∀ c ∈ [d], c.isDigit := by simpa using hds d (List.mem_cons_self ..)
  have hds' : ∀ c ∈ ds, c.isDigit := fun c hc => hds c (List.mem_cons_of_mem _ hc)
  simp only [scientific, List.drop_one, List.tail_cons, List.take_succ_cons, List.take_zero]
  rw [List.append_assoc, hchars]
  cases ds with
  | nil =>
    have hread := readDecimal_whole negative ('e' :: Integer.chars exponent) (by simp) hd rfl
    simp only [List.isEmpty_nil, if_true, List.append_nil, hread, readExponent_chars,
      Option.map_some]
    congr 2
    simp only [List.length_singleton] at hexponent
    omega
  | cons c cs =>
    have hread := readDecimal_point negative ('e' :: Integer.chars exponent) (by simp) hd hds' rfl
    simp only [List.isEmpty_cons, Bool.false_eq_true, if_false, List.cons_append,
      List.nil_append] at hread ⊢
    rw [hread, readExponent_chars, Option.map_some]
    congr 2
    simp only [List.length_cons] at hexponent ⊢
    omega

end Layout

section Render

variable (negative : Bool) {size : Magnitude} {layout : Magnitude → List Char}

theorem toLower_of_isDigit {c : Char} (hc : c.isDigit) : c.toLower = c := by
  unfold Char.toLower
  split
  case isTrue h =>
    simp only [Char.isDigit, Bool.and_eq_true, decide_eq_true_eq] at hc
    exact absurd (UInt32.le_trans h.1 hc.2) (by decide)
  case isFalse => rfl

/-- The names of special values start with a letter. -/
theorem readName_of_isDigit {c : Char} (hc : c.isDigit) (cs : List Char) :
    readName negative (c :: cs) = none := by
  have hi : c ≠ 'i' := Integer.ne_of_isDigit hc rfl
  have hn : c ≠ 'n' := Integer.ne_of_isDigit hc rfl
  simp [readName, toLower_of_isDigit hc, hi, hn]

/-- A size that starts with a digit is what follows the sign. -/
theorem takeSign_render (hdigit : (layout size).head?.any Char.isDigit) :
    Integer.takeSign ((finite negative size).render layout) = (negative, layout size) := by
  cases hcs : layout size with
  | nil => simp [hcs] at hdigit
  | cons c cs =>
    have hc : c.isDigit := by simpa [hcs] using hdigit
    cases negative with
    | false => simpa [render, render.sign, hcs] using Integer.takeSign_of_isDigit hc cs
    | true => simp [render, render.sign, hcs, Integer.takeSign]

/-- In whatever layout a size is read back, the number is, with its sign. -/
theorem read_render (hdigit : (layout size).head?.any Char.isDigit)
    (hread : readDecimal negative (layout size) = some (finite negative size)) :
    read ((finite negative size).render layout) = some (finite negative size) := by
  have hname : readName negative (layout size) = none := by
    cases hcs : layout size with
    | nil => simp [hcs] at hdigit
    | cons c cs => exact readName_of_isDigit negative (by simpa [hcs] using hdigit) cs
  simp only [read, takeSign_render negative hdigit, hname, Option.none_or, hread]

end Render

section Literal

variable (negative : Bool) (size : Magnitude)

theorem toDigits_readsBack :
    ofDecimal negative (Nat.ofDigitChars 10 (Nat.toDigits 10 (shortest size).digits) 0)
      (shortest size).power = finite negative size := by
  rw [Nat.ofDigitChars_ten_toDigits, ofDecimal_shortest]

theorem readDecimal_literalSize :
    readDecimal negative (literalSize size) = some (finite negative size) := by
  have hne := Nat.toDigits_ne_nil (n := (shortest size).digits) (b := 10)
  have hds : ∀ c ∈ Nat.toDigits 10 (shortest size).digits, c.isDigit :=
    fun _ => Integer.isDigit_of_mem_toDigits
  simp only [literalSize]
  split
  case isTrue hzero =>
    rw [Magnitude.rank_eq_zero_iff.mp hzero]
    exact readDecimal_point negative [] (by simp) isDigit_of_mem_zero isDigit_of_mem_zero rfl
  case isFalse =>
    split
    case isTrue =>
      rw [readDecimal_positional negative (Or.inl rfl) hne hds, toDigits_readsBack]
    case isFalse =>
      rw [readDecimal_scientific negative hne hds, toDigits_readsBack]

theorem mem_positional {whole digits : List Char} {point : ℤ} {c : Char}
    (h : c ∈ positional whole digits point) : c ∈ digits ∨ c ∈ whole ∨ c = '0' ∨ c = '.' := by
  unfold positional at h
  split at h
  case isTrue =>
    simp only [List.mem_cons, List.mem_append, List.mem_replicate] at h
    tauto
  case isFalse =>
    split at h
    case isTrue =>
      simp only [List.mem_append, List.mem_replicate] at h
      tauto
    case isFalse =>
      simp only [List.mem_append, List.mem_cons] at h
      rcases h with h | h | h
      · exact Or.inl (List.mem_of_mem_take h)
      · tauto
      · exact Or.inl (List.mem_of_mem_drop h)

theorem mem_scientific {digits : List Char} {exponent : ℤ} {c : Char}
    (h : c ∈ scientific digits exponent) :
    c ∈ digits ∨ c.isDigit ∨ c = '.' ∨ c = 'e' ∨ c = '-' := by
  simp only [scientific, List.mem_append, List.mem_cons] at h
  rcases h with ((h | h) | h | h) | h
  · exact Or.inl (List.mem_of_mem_take h)
  · split at h
    · cases h
    · rcases List.mem_cons.mp h with h | h
      · tauto
      · exact Or.inl (List.mem_of_mem_drop h)
  · tauto
  · split at h
    · exact Or.inr (Or.inr (Or.inr (Or.inr (List.mem_singleton.mp h))))
    · cases h
  · exact Or.inr (Or.inl (Integer.isDigit_of_mem_toDigits h))

/-- A literal is made of digits, a point, an exponent letter and a minus. -/
theorem mem_literalSize {c : Char} (h : c ∈ literalSize size) :
    c.isDigit ∨ c = '.' ∨ c = 'e' ∨ c = '-' := by
  simp only [literalSize] at h
  split at h
  case isTrue =>
    simp only [List.mem_cons, List.not_mem_nil, or_false] at h
    rcases h with rfl | rfl | rfl <;> decide
  case isFalse =>
    split at h
    case isTrue =>
      rcases mem_positional h with h | h | rfl | h
      · exact Or.inl (Integer.isDigit_of_mem_toDigits h)
      · simp only [List.mem_cons, List.not_mem_nil, or_false] at h
        rcases h with rfl | rfl <;> decide
      · decide
      · tauto
    case isFalse =>
      rcases mem_scientific h with h | h
      · exact Or.inl (Integer.isDigit_of_mem_toDigits h)
      · exact h

theorem head?_positional (whole : List Char) {digits : List Char} (hne : digits ≠ [])
    (hds : ∀ c ∈ digits, c.isDigit) (point : ℤ) :
    (positional whole digits point).head?.any Char.isDigit := by
  obtain ⟨d, ds, rfl⟩ := List.exists_cons_of_ne_nil hne
  have hd : d.isDigit := hds d (List.mem_cons_self ..)
  unfold positional
  split
  case isTrue => rfl
  case isFalse hpoint =>
    split
    case isTrue => simpa using hd
    case isFalse =>
      obtain ⟨k, hk⟩ : ∃ k, point.natAbs = k + 1 := ⟨point.natAbs - 1, by omega⟩
      simpa [hk] using hd

/-- A literal starts with a digit. -/
theorem head?_literalSize : (literalSize size).head?.any Char.isDigit := by
  have hne := Nat.toDigits_ne_nil (n := (shortest size).digits) (b := 10)
  have hds : ∀ c ∈ Nat.toDigits 10 (shortest size).digits, c.isDigit :=
    fun _ => Integer.isDigit_of_mem_toDigits
  simp only [literalSize]
  split
  case isTrue => rfl
  case isFalse =>
    split
    case isTrue => exact head?_positional _ hne hds _
    case isFalse =>
      obtain ⟨d, ds, hcons⟩ := List.exists_cons_of_ne_nil hne
      rw [hcons] at hds ⊢
      simpa [scientific] using hds d (List.mem_cons_self ..)

/-- A literal does not look like an integer. -/
theorem any_literalSize :
    (literalSize size).any (fun c => c == '.' || c == 'e' || c == 'E') := by
  simp only [literalSize]
  split
  · rfl
  · split
    · unfold positional
      repeat' split
      all_goals simp
    · simp [scientific]

theorem takeSign_literal :
    Integer.takeSign (finite negative size).literal = (negative, literalSize size) :=
  takeSign_render negative (head?_literalSize size)

/-- A number is read back from its literal. -/
theorem read_literal : read (finite negative size).literal = some (finite negative size) :=
  read_render negative (head?_literalSize size) (readDecimal_literalSize negative size)

/-- Outside its sign a literal has no other characters than those of a size. -/
theorem mem_literal {c : Char} (h : c ∈ (finite negative size).literal) :
    c.isDigit ∨ c = '.' ∨ c = 'e' ∨ c = '-' := by
  rcases List.mem_append.mp h with h | h
  · unfold render.sign at h
    split at h
    · exact Or.inr (Or.inr (Or.inr (List.mem_singleton.mp h)))
    · cases h
  · exact mem_literalSize size h

end Literal

end RadarQuery.Double
