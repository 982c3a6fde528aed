import RadarQuery.Proofs.Double.Value
import RadarQuery.Proofs.Operator.Comparison

/-!
Equality between integers and floats. An integer is widened where it meets a float, and it
keeps its value if it has at most 53 binary digits, zeros at the end aside. Two integers that
are widened to one float equal this float and not each other, and nothing else keeps value
equality from being transitive.
-/

namespace RadarQuery.Expr

open Double

def widen? : Expr → Option Double
  | integer n => some (ofInt n.toInt)
  | float x => some x
  | _ => none

/-- Widening keeps the value, which only that of an integer may lose. -/
def WidensExactly (e : Expr) : Prop :=
  ∀ n, e = integer n → Representable n.toInt

variable {a b c : Expr} {x y : Double}

section Widening

variable {q : ℚ} {n : Int64}

theorem isFinite_ofInt_toInt (n : Int64) : (ofInt n.toInt).isFinite := by
  have hlow := n.le_toInt
  have hhigh := n.toInt_lt
  rw [ofInt, isFinite_ofQuotient_iff Nat.one_pos, Nat.mul_one]
  refine Nat.mul_lt_mul_of_pos_right ?_ unitsPerOne_pos
  calc n.toInt.natAbs < 2 ^ 64 := by omega
    _ < (2 ^ 54 - 1) * 2 ^ 970 := by decide +kernel

/-- An integer equals the numbers of the value that it is widened to. -/
theorem equals_float_iff (hx : x.value? = some q) :
    (integer n).equals (float x) ↔ (ofInt n.toInt).value? = some q := by
  obtain ⟨p, hp⟩ := exists_value? (isFinite_ofInt_toInt n)
  have hequals : (integer n).equals (float x) ↔ p = q := equals_iff_of_value? hp hx
  rw [hequals, hp, Option.some_inj]

/-- The integers that widening keeps are equal to the floats of their value only. -/
theorem representable_iff_equals : Representable (n.toInt : ℚ) ↔
    ∀ (x : Double) (q : ℚ), x.value? = some q → ((integer n).equals (float x) ↔ q = n.toInt) := by
  constructor
  · intro h x q hx
    rw [equals_float_iff hx, value?_ofInt h, Option.some_inj, eq_comm]
  · intro h
    obtain ⟨p, hp⟩ := exists_value? (isFinite_ofInt_toInt n)
    have hself : p = n.toInt := (h _ _ hp).mp ((equals_float_iff hp).mpr hp)
    exact ⟨_, hself ▸ hp⟩

theorem representable_toInt_iff : Representable (n.toInt : ℚ) ↔
    ∃ digits shift, digits < 2 ^ 53 ∧ n.toInt.natAbs = digits * 2 ^ shift := by
  rw [representable_intCast_iff, representable_natCast_iff]
  constructor
  · rintro ⟨digits, shift, hdigits, -, hn⟩
    exact ⟨digits, shift, hdigits, hn⟩
  · rintro ⟨digits, shift, hdigits, hn⟩
    -- Only zero could be shifted out of the range of the doubles.
    rcases Nat.eq_zero_or_pos digits with rfl | hpos
    · exact ⟨0, 0, hdigits, Nat.zero_le _, by simpa using hn⟩
    · have hlow := n.le_toInt
      have hhigh := n.toInt_lt
      have hbound : 2 ^ shift < 2 ^ 64 := by
        calc 2 ^ shift ≤ digits * 2 ^ shift := Nat.le_mul_of_pos_left _ hpos
          _ < 2 ^ 64 := by omega
      have hshift : shift < 64 := (Nat.pow_lt_pow_iff_right (by decide)).mp hbound
      exact ⟨digits, shift, hdigits, by omega, hn⟩

end Widening

section Transitivity

theorem widen?_eq_some_iff : a.widen? = some x ↔
    (∃ n, a = integer n ∧ ofInt n.toInt = x) ∨ a = float x := by
  cases a with
  | list items => simp [widen?]
  | atom a => cases a <;> simp [widen?]

/-- Unless both are integers, numbers are equal as the doubles that they are widened to. -/
theorem equals_of_widen? (ha : a.widen? = some x) (hb : b.widen? = some y)
    (h : ¬∃ m n, a = integer m ∧ b = integer n) : a.equals b = x.equals y := by
  rcases widen?_eq_some_iff.mp ha with ⟨m, rfl, rfl⟩ | rfl
  · rcases widen?_eq_some_iff.mp hb with ⟨n, rfl, rfl⟩ | rfl
    · exact absurd ⟨m, n, rfl, rfl⟩ h
    · rfl
  · rcases widen?_eq_some_iff.mp hb with ⟨n, rfl, rfl⟩ | rfl
    · exact Double.equals_comm _ _
    · rfl

theorem equals_eq_same_of_widen? (ha : a.widen? = none) : a.equals b = a.same b := by
  apply equals_eq_same
  intro n x
  constructor
  · rintro ⟨rfl, -⟩
    cases ha
  · rintro ⟨rfl, -⟩
    cases ha

theorem widen?_eq_none_of_same (h : a.same b) (ha : a.widen? = none) : b.widen? = none := by
  cases a with
  | list items =>
    cases b with
    | list others => rfl
    | atom b => cases h
  | atom a =>
    cases b with
    | list others => cases h
    | atom b => cases a <;> cases b <;> first | rfl | cases h | cases ha

theorem equals_integers_iff {m n : Int64} : (integer m).equals (integer n) ↔ m = n := by
  simp [equals, same, Atom.same]

/-- What equals a number is a number, equal to it as a double as well. -/
theorem widen?_of_equals (h : a.equals b) (ha : a.widen? = some x) :
    ∃ y, b.widen? = some y ∧ x.equals y := by
  cases hb : b.widen? with
  | none =>
    rw [equals_comm, equals_eq_same_of_widen? hb] at h
    rw [widen?_eq_none_of_same h hb] at ha
    cases ha
  | some y =>
    refine ⟨y, rfl, ?_⟩
    by_cases hints : ∃ m n, a = integer m ∧ b = integer n
    · obtain ⟨m, n, rfl, rfl⟩ := hints
      obtain rfl := equals_integers_iff.mp h
      obtain rfl := Option.some.inj (ha.symm.trans hb)
      obtain rfl := Option.some.inj ha
      exact Double.equals_self_iff.mpr (ofInt_ne_nan _)
    · rwa [equals_of_widen? ha hb hints] at h

/-- The one way in which two values can equal a third and not each other. -/
theorem equals_trans_or (hab : a.equals b) (hbc : b.equals c) :
    a.equals c ∨ ∃ m x n, a = integer m ∧ b = float x ∧ c = integer n := by
  cases ha : a.widen? with
  | none =>
    rw [equals_eq_same_of_widen? ha] at hab ⊢
    rw [equals_eq_same_of_widen? (widen?_eq_none_of_same hab ha)] at hbc
    exact Or.inl (same_trans hab hbc)
  | some x =>
    obtain ⟨y, hb, hxy⟩ := widen?_of_equals hab ha
    obtain ⟨z, hc, hyz⟩ := widen?_of_equals hbc hb
    by_cases hints : ∃ m n, a = integer m ∧ c = integer n
    · obtain ⟨m, n, rfl, rfl⟩ := hints
      rcases widen?_eq_some_iff.mp hb with ⟨k, rfl, rfl⟩ | rfl
      · obtain rfl := equals_integers_iff.mp hab
        exact Or.inl hbc
      · exact Or.inr ⟨m, y, n, rfl, rfl, rfl⟩
    · rw [equals_of_widen? ha hc hints]
      exact Or.inl (Double.equals_trans hxy hyz)

theorem equals_trans_iff (hab : a.equals b) (hbc : b.equals c) :
    a.equals c ↔ ¬∃ m x n, a = integer m ∧ b = float x ∧ c = integer n ∧ m ≠ n := by
  constructor
  · rintro hac ⟨m, x, n, rfl, -, rfl, hne⟩
    exact hne (equals_integers_iff.mp hac)
  · intro h
    rcases equals_trans_or hab hbc with hac | ⟨m, x, n, rfl, rfl, rfl⟩
    · exact hac
    · by_contra hac
      exact h ⟨m, x, n, rfl, rfl, rfl, fun heq => hac (equals_integers_iff.mpr heq)⟩

/-- Integers that keep their value are identified through no float. -/
theorem equals_trans_of_widensExactly (ha : a.WidensExactly) (hc : c.WidensExactly)
    (hab : a.equals b) (hbc : b.equals c) : a.equals c := by
  rw [equals_trans_iff hab hbc]
  rintro ⟨m, x, n, rfl, rfl, rfl, hne⟩
  have hx : (ofInt m.toInt).equals (ofInt n.toInt) :=
    Double.equals_trans hab ((Double.equals_comm x _).trans hbc)
  rw [equals_iff_of_value? (value?_ofInt (ha m rfl)) (value?_ofInt (hc n rfl)), Int.cast_inj] at hx
  exact hne (Int64.toInt_inj.mp hx)

end Transitivity

/-- Value equality is reflexive without undefined numbers and always symmetric. It is
transitive but for two different integers that equal one float, which are not both kept when
they are widened. An integer equals the floats of its own value and no others if and only if
it is kept, that is if it has at most 53 binary digits in front of its last zeros. -/
theorem equals_widening (a b c : Expr) (n : Int64) :
    (a.equals a ↔ a.FloatsDefined) ∧ a.equals b = b.equals a ∧
    (a.equals b → b.equals c →
      (a.equals c ↔ ¬∃ m x n, a = integer m ∧ b = float x ∧ c = integer n ∧ m ≠ n) ∧
      (a.WidensExactly → c.WidensExactly → a.equals c)) ∧
    ((∀ (x : Double) (q : ℚ), x.value? = some q → ((integer n).equals (float x) ↔ q = n.toInt)) ↔
      (integer n).WidensExactly) ∧
    ((integer n).WidensExactly ↔
      ∃ digits shift, digits < 2 ^ 53 ∧ n.toInt.natAbs = digits * 2 ^ shift) := by
  have hkept : (integer n).WidensExactly ↔ Representable (n.toInt : ℚ) := by
    constructor
    · exact fun h => h n rfl
    · rintro h m heq
      obtain rfl : n = m := by simpa using heq
      exact h
  refine ⟨equals_self_iff, equals_comm a b, fun hab hbc => ⟨equals_trans_iff hab hbc,
    fun ha hc => equals_trans_of_widensExactly ha hc hab hbc⟩, ?_, ?_⟩
  · rw [hkept, representable_iff_equals]
  · rw [hkept, representable_toInt_iff]

/-- The first integer that loses its value is widened to the one before it. -/
theorem equals_widening_two_pow :
    (integer 9007199254740993).equals (float (ofInt 9007199254740992)) ∧
    ¬(integer 9007199254740993).equals (integer 9007199254740992) ∧
    (integer 9007199254740992).WidensExactly ∧ ¬(integer 9007199254740993).WidensExactly ∧
    ¬(integer 9007199254740992).equals (float (ofInt 0)) ∧
    (integer 0).equals (float (.finite false .zero)) := by
  have hkept : (integer 9007199254740992).WidensExactly :=
    (equals_widening (integer 0) (integer 0) (integer 0) _).2.2.2.2.mpr ⟨2 ^ 52, 1, by decide⟩
  have hx : (ofInt 9007199254740992).value? = some (9007199254740992 : ℤ) :=
    value?_ofInt (hkept _ rfl)
  have hzero : (ofInt 0).value? = some ((0 : ℤ) : ℚ) := by
    refine value?_ofInt (representable_intCast_iff.mpr (representable_natCast_of_le ?_))
    decide
  have hequals : (integer 9007199254740993).equals (float (ofInt 9007199254740992)) := by
    decide +kernel
  have hequals' : (float (ofInt 9007199254740992)).equals (integer 9007199254740992) := by
    decide +kernel
  refine ⟨hequals, fun hboth => ?_, hkept, fun hlost => ?_, fun hfloat => ?_, ?_⟩
  · exact ((equals_widening _ _ _ 0).2.2.1 hequals hequals').1.mp hboth
      ⟨_, _, _, rfl, rfl, rfl, by decide⟩
  · have hvalue := ((equals_widening (integer 0) (integer 0) (integer 0) _).2.2.2.1.mpr hlost)
      _ _ hx
    exact absurd (hvalue.mp hequals) (by decide)
  · have hvalue := ((equals_widening (integer 0) (integer 0) (integer 0) _).2.2.2.1.mpr hkept)
      _ _ hzero
    exact absurd (hvalue.mp hfloat) (by decide)
  · have hexact : (integer 0).WidensExactly :=
      (equals_widening (integer 0) (integer 0) (integer 0) 0).2.2.2.2.mpr ⟨0, 0, by decide⟩
    have hnegative : (integer 0).equals (float (.finite true .zero)) := by decide +kernel
    have hpositive : (float (.finite true .zero)).equals (float (.finite false .zero)) := by
      decide +kernel
    exact ((equals_widening _ _ _ 0).2.2.1 hnegative hpositive).2 hexact fun n h => by cases h

/-- Two integers equal a float and not each other. -/
theorem equals_not_trans : ∃ x : Double,
    (integer 9007199254740993).FloatsDefined ∧ (float x).FloatsDefined ∧
    (integer 9007199254740993).equals (float x) ∧ (float x).equals (integer 9007199254740992) ∧
    ¬(integer 9007199254740993).equals (integer 9007199254740992) :=
  ⟨.ofInt 9007199254740992, by decide +kernel⟩

end RadarQuery.Expr
