import Mathlib.Algebra.Field.Rat
import Mathlib.Data.Int.Cast.Lemmas
import Mathlib.Data.Rat.Cast.Defs
import RadarQuery.Operator.Arithmetic
import RadarQuery.Proofs.Double.Zero

/-!
Arithmetic on two values, all that can come out of it. Two integers give the exact result
or an overflow, and a division with a remainder gives a float; where a float takes part the
result is one. Division by zero is found for every zero, whatever the other number is, and
all pairs of values but numbers and two texts to be joined are of the wrong types.
-/

namespace RadarQuery

namespace Expr

def IsNumber (e : Expr) : Prop :=
  e.kind = .integer ∨ e.kind = .float

def IsZero (e : Expr) : Prop :=
  e = .integer 0 ∨ e = .float (.finite false .zero) ∨ e = .float (.finite true .zero)

section Kinds

variable {e : Expr}

@[simp] theorem kind_integer (n : Int64) : (Expr.integer n).kind = .integer := rfl

@[simp] theorem kind_float (x : Double) : (Expr.float x).kind = .float := rfl

@[simp] theorem kind_text (s : String) : (Expr.text s).kind = .text := rfl

@[simp] theorem isNumber_integer (n : Int64) : (Expr.integer n).IsNumber := Or.inl rfl

@[simp] theorem isNumber_float (x : Double) : (Expr.float x).IsNumber := Or.inr rfl

@[simp] theorem not_isNumber_text (s : String) : ¬(Expr.text s).IsNumber := by
  simp [IsNumber]

theorem isNumber_iff : e.IsNumber ↔ (∃ n, e = .integer n) ∨ ∃ x, e = .float x := by
  cases e with
  | list items => simp [IsNumber, kind]
  | atom a => cases a <;> simp [IsNumber, kind, Atom.kind]

theorem kind_eq_text_iff : e.kind = .text ↔ ∃ s, e = .text s := by
  cases e with
  | list items => simp [kind]
  | atom a => cases a <;> simp [kind, Atom.kind]

theorem isZero_integer_iff {n : Int64} : (Expr.integer n).IsZero ↔ n = 0 := by
  simp [IsZero]

theorem isZero_float_iff {x : Double} : (Expr.float x).IsZero ↔ x.isZero := by
  simp [IsZero, Double.isZero_iff]

theorem IsZero.isNumber (h : e.IsZero) : e.IsNumber := by
  rcases h with rfl | rfl | rfl
  · exact isNumber_integer 0
  · exact isNumber_float _
  · exact isNumber_float _

end Kinds

end Expr

namespace Arithmetic

def onRationals : Arithmetic → ℚ → ℚ → ℚ
  | add, x, y => x + y
  | subtract, x, y => x - y
  | multiply, x, y => x * y
  | divide, x, y => x / y

/-- The exact result of an operation on two integers is an integer. -/
def IsExact (operation : Arithmetic) (m n r : ℤ) : Prop :=
  (operation = divide → n ≠ 0) ∧ (r : ℚ) = operation.onRationals m n

def IsOutside (r : ℤ) : Prop :=
  r < Int64.minValue.toInt ∨ Int64.maxValue.toInt < r

inductive Outcome : Arithmetic → Expr → Expr → Except EvalError Expr → Prop
  | integer {operation : Arithmetic} {m n k : Int64} :
      operation.IsExact m.toInt n.toInt k.toInt →
      Outcome operation (.integer m) (.integer n) (.ok (.integer k))
  | overflow {operation : Arithmetic} {m n : Int64} {r : ℤ} :
      operation.IsExact m.toInt n.toInt r → IsOutside r →
      Outcome operation (.integer m) (.integer n) (.error (.overflow operation))
  | remainder {m n : Int64} (x : Double) : n ≠ 0 → ¬n.toInt ∣ m.toInt →
      Outcome divide (.integer m) (.integer n) (.ok (.float x))
  | float {operation : Arithmetic} {a b : Expr} (x : Double) : a.IsNumber → b.IsNumber →
      a.kind = .float ∨ b.kind = .float → (operation = divide → ¬b.IsZero) →
      Outcome operation a b (.ok (.float x))
  | divisionByZero {a b : Expr} : a.IsNumber → b.IsZero →
      Outcome divide a b (.error .divisionByZero)
  | text (s t : String) : Outcome add (.text s) (.text t) (.ok (.text (s ++ t)))
  | typeError {operation : Arithmetic} {a b : Expr} : ¬(a.IsNumber ∧ b.IsNumber) →
      ¬(operation = add ∧ a.kind = .text ∧ b.kind = .text) →
      Outcome operation a b (.error (.typeError (.arithmetic operation a.kind b.kind)))

section Exact

variable {operation : Arithmetic} {m n r r' : ℤ}

theorem IsExact.unique (h : operation.IsExact m n r) (h' : operation.IsExact m n r') : r = r' :=
  Int.cast_injective (h.2.trans h'.2.symm)

/-- A quotient is an integer if nothing is left over. -/
theorem isExact_divide_iff : divide.IsExact m n r ↔ n ≠ 0 ∧ r * n = m := by
  constructor
  · rintro ⟨hdivisor, hr⟩
    have hn : n ≠ 0 := hdivisor rfl
    rw [onRationals, eq_div_iff (Int.cast_ne_zero.mpr hn)] at hr
    exact ⟨hn, by exact_mod_cast hr⟩
  · rintro ⟨hn, rfl⟩
    refine ⟨fun _ => hn, ?_⟩
    rw [onRationals, Int.cast_mul, mul_div_cancel_right₀ _ (Int.cast_ne_zero.mpr hn)]

theorem not_isExact_of_not_dvd (h : ¬n ∣ m) : ¬divide.IsExact m n r := by
  intro hexact
  obtain ⟨-, rfl⟩ := isExact_divide_iff.mp hexact
  exact h (Int.dvd_mul_left r n)

/-- An exact quotient has a divisor that is not zero. -/
theorem IsExact.not_isZero {k : Int64} (h : divide.IsExact m k.toInt r) :
    ¬(Expr.integer k).IsZero := by
  intro hzero
  obtain rfl := Expr.isZero_integer_iff.mp hzero
  exact h.1 rfl rfl

/-- Where there is an exact result, the operation on integers gives it. -/
theorem isExact_onInts (h : operation = divide → n ≠ 0 ∧ n ∣ m) :
    operation.IsExact m n (operation.onInts m n) := by
  cases operation with
  | add => exact ⟨by simp, Int.cast_add m n⟩
  | subtract => exact ⟨by simp, Int.cast_sub m n⟩
  | multiply => exact ⟨by simp, Int.cast_mul m n⟩
  | divide =>
    obtain ⟨hn, hdvd⟩ := h rfl
    exact isExact_divide_iff.mpr ⟨hn, Int.tdiv_mul_cancel hdvd⟩

theorem narrow?_cases (r : ℤ) :
    (∃ k : Int64, Integer.narrow? r = some k ∧ k.toInt = r) ∨
      Integer.narrow? r = none ∧ IsOutside r := by
  unfold Integer.narrow? IsOutside
  rw [Int64.toInt_minValue, Int64.toInt_maxValue]
  split
  case isTrue h =>
    exact Or.inl ⟨_, rfl, Int64.toInt_ofInt_of_le h.1 (by omega)⟩
  case isFalse h =>
    exact Or.inr ⟨rfl, by omega⟩

theorem not_isOutside (k : Int64) : ¬IsOutside k.toInt := by
  have hlow := k.minValue_le_toInt
  have hhigh := k.toInt_le
  unfold IsOutside
  omega

/-- The one quotient that 64 bits do not hold. -/
theorem eq_of_isOutside_divide {m n : Int64} (h : divide.IsExact m.toInt n.toInt r)
    (hr : IsOutside r) : m = Int64.minValue ∧ n = -1 := by
  obtain ⟨hn, hmul⟩ := isExact_divide_iff.mp h
  have habs : r.natAbs * n.toInt.natAbs = m.toInt.natAbs := by rw [← Int.natAbs_mul, hmul]
  have hle : r.natAbs ≤ m.toInt.natAbs := by
    rw [← habs]
    exact Nat.le_mul_of_pos_right _ (Int.natAbs_pos.mpr hn)
  have hlow := m.le_toInt
  have hhigh := m.toInt_lt
  rw [IsOutside, Int64.toInt_minValue, Int64.toInt_maxValue] at hr
  have hm : m.toInt = -2 ^ 63 := by omega
  have hr' : r = 2 ^ 63 := by omega
  rw [hr', hm] at hmul
  have hn' : n.toInt = -1 := by omega
  exact ⟨Int64.toInt_inj.mp hm, Int64.toInt_inj.mp hn'⟩

end Exact

section Cases

variable {operation : Arithmetic}

theorem outcome_integers (operation : Arithmetic) (m n : Int64) :
    Outcome operation (.integer m) (.integer n) (operation.integers m n) := by
  unfold integers
  simp only
  split
  case isTrue hzero =>
    obtain ⟨rfl, hn⟩ := hzero
    obtain rfl : n = 0 := Int64.toInt_inj.mp hn
    exact .divisionByZero (Expr.isNumber_integer m) (Or.inl rfl)
  case isFalse hzero =>
    have hdivisor : operation = divide → n.toInt ≠ 0 := fun hdivide hn => hzero ⟨hdivide, hn⟩
    split
    case isTrue hrest =>
      obtain ⟨rfl, hrest⟩ := hrest
      refine .remainder _ ?_ fun hdvd => hrest (Int.tmod_eq_zero_of_dvd hdvd)
      rintro rfl
      exact hdivisor rfl rfl
    case isFalse hrest =>
      have hexact : operation.IsExact m.toInt n.toInt (operation.onInts m.toInt n.toInt) := by
        refine isExact_onInts fun hdivide => ⟨hdivisor hdivide, ?_⟩
        exact Int.dvd_of_tmod_eq_zero (by_contra fun hne => hrest ⟨hdivide, hne⟩)
      rcases narrow?_cases (operation.onInts m.toInt n.toInt) with
        ⟨k, hk, hvalue⟩ | ⟨hnone, hout⟩
      · rw [hk]
        exact .integer (hvalue ▸ hexact)
      · rw [hnone]
        exact .overflow hexact hout

variable {a b : Expr}

theorem outcome_floats (x y : Double) (ha : a.IsNumber) (hb : b.IsNumber)
    (hfloat : a.kind = .float ∨ b.kind = .float) (hzero : b.IsZero ↔ y.isZero) :
    Outcome operation a b (operation.floats x y) := by
  unfold floats
  split
  case isTrue h =>
    obtain ⟨rfl, hy⟩ := h
    exact .divisionByZero ha (hzero.mpr hy)
  case isFalse h =>
    exact .float _ ha hb hfloat fun hdivide hb => h ⟨hdivide, hzero.mp hb⟩

/-- Whether decimals or doubles give it, the result is a float. -/
theorem outcome_mixed (c d : Option Decimal) (x y : Double) (ha : a.IsNumber) (hb : b.IsNumber)
    (hfloat : a.kind = .float ∨ b.kind = .float) (hzero : b.IsZero ↔ y.isZero) :
    Outcome operation a b (operation.mixed c d x y) := by
  have hfloats : Outcome operation a b (operation.floats x y) :=
    outcome_floats x y ha hb hfloat hzero
  unfold mixed
  split
  case isTrue h =>
    obtain ⟨rfl, hy⟩ := h
    exact .divisionByZero ha (hzero.mpr hy)
  case isFalse h =>
    split
    · split
      · exact .float _ ha hb hfloat fun hdivide hb => h ⟨hdivide, hzero.mp hb⟩
      · exact hfloats
    · exact hfloats

theorem apply_eq_typeError (hnumbers : ¬(a.IsNumber ∧ b.IsNumber))
    (htexts : ¬(operation = add ∧ a.kind = .text ∧ b.kind = .text)) :
    operation.apply a b = .error (.typeError (.arithmetic operation a.kind b.kind)) := by
  unfold apply
  split
  case h_1 => simp at hnumbers
  case h_2 => simp at hnumbers
  case h_3 => simp at hnumbers
  case h_4 => simp at hnumbers
  case h_5 =>
    split
    case isTrue hadd => exact absurd ⟨hadd, rfl, rfl⟩ htexts
    case isFalse => rfl
  case h_6 => rfl

theorem outcome_apply (operation : Arithmetic) (a b : Expr) :
    Outcome operation a b (operation.apply a b) := by
  by_cases hnumbers : a.IsNumber ∧ b.IsNumber
  · obtain ⟨ha, hb⟩ := hnumbers
    rcases Expr.isNumber_iff.mp ha with ⟨m, rfl⟩ | ⟨x, rfl⟩
    · rcases Expr.isNumber_iff.mp hb with ⟨n, rfl⟩ | ⟨y, rfl⟩
      · exact outcome_integers operation m n
      · exact outcome_mixed _ _ _ _ ha hb (Or.inr rfl) Expr.isZero_float_iff
    · rcases Expr.isNumber_iff.mp hb with ⟨n, rfl⟩ | ⟨y, rfl⟩
      · have hzero : (Expr.integer n).IsZero ↔ (Double.ofInt n.toInt).isZero := by
          rw [Expr.isZero_integer_iff, Double.isZero_ofInt_iff, ← Int64.toInt_inj]
          rfl
        exact outcome_mixed _ _ _ _ ha hb (Or.inl rfl) hzero
      · exact outcome_floats x y ha hb (Or.inl rfl) Expr.isZero_float_iff
  · by_cases htexts : operation = add ∧ a.kind = .text ∧ b.kind = .text
    · obtain ⟨rfl, ha, hb⟩ := htexts
      obtain ⟨s, rfl⟩ := Expr.kind_eq_text_iff.mp ha
      obtain ⟨t, rfl⟩ := Expr.kind_eq_text_iff.mp hb
      exact .text s t
    · rw [apply_eq_typeError hnumbers htexts]
      exact .typeError hnumbers htexts

end Cases

namespace Outcome

variable {operation : Arithmetic} {a b : Expr} {result : Except EvalError Expr}

theorem eq_typeError_iff (h : Outcome operation a b result) {fault : TypeFault} :
    result = .error (.typeError fault) ↔
      fault = .arithmetic operation a.kind b.kind ∧ ¬(a.IsNumber ∧ b.IsNumber) ∧
        ¬(operation = add ∧ a.kind = .text ∧ b.kind = .text) := by
  cases h with
  | integer => simp
  | overflow => simp
  | remainder => simp
  | float x ha hb => simp [ha, hb]
  | divisionByZero ha hb => simp [ha, hb.isNumber]
  | text => simp
  | typeError hnumbers htexts =>
    rw [Except.error.injEq, EvalError.typeError.injEq, eq_comm]
    exact ⟨fun h => ⟨h, hnumbers, htexts⟩, fun h => h.1⟩

theorem eq_divisionByZero_iff (h : Outcome operation a b result) :
    result = .error .divisionByZero ↔
      operation = divide ∧ a.IsNumber ∧ b.IsNumber ∧ b.IsZero := by
  cases h with
  | integer hexact =>
    simp only [reduceCtorEq, false_iff]
    rintro ⟨rfl, -, -, hzero⟩
    exact hexact.not_isZero hzero
  | overflow hexact =>
    simp only [Except.error.injEq, reduceCtorEq, false_iff]
    rintro ⟨rfl, -, -, hzero⟩
    exact hexact.not_isZero hzero
  | remainder x hn =>
    simp only [reduceCtorEq, false_iff]
    rintro ⟨-, -, -, hzero⟩
    exact hn (Expr.isZero_integer_iff.mp hzero)
  | float x _ _ _ hzero =>
    simp only [reduceCtorEq, false_iff]
    rintro ⟨hdivide, -, -, hb⟩
    exact hzero hdivide hb
  | divisionByZero ha hb => simp [ha, hb, hb.isNumber]
  | text => simp
  | typeError hnumbers =>
    simp only [Except.error.injEq, reduceCtorEq, false_iff]
    rintro ⟨-, ha, hb, -⟩
    exact hnumbers ⟨ha, hb⟩

theorem eq_overflow_iff (h : Outcome operation a b result) {other : Arithmetic} :
    result = .error (.overflow other) ↔ other = operation ∧
      ∃ (m n : Int64) (r : ℤ), a = .integer m ∧ b = .integer n ∧
        operation.IsExact m.toInt n.toInt r ∧ IsOutside r := by
  cases h with
  | @integer operation m n k hexact =>
    simp only [reduceCtorEq, false_iff]
    rintro ⟨-, m', n', r, hm, hn, hr, hout⟩
    cases hm
    cases hn
    exact not_isOutside k (hr.unique hexact ▸ hout)
  | @overflow operation m n r hexact hout =>
    rw [Except.error.injEq, EvalError.overflow.injEq, eq_comm]
    exact ⟨fun h => ⟨h, m, n, r, rfl, rfl, hexact, hout⟩, fun h => h.1⟩
  | remainder x hn hdvd =>
    simp only [reduceCtorEq, false_iff]
    rintro ⟨-, m', n', r, hm, hn, hr, -⟩
    cases hm
    cases hn
    exact not_isExact_of_not_dvd hdvd hr
  | float x _ _ hfloat =>
    simp only [reduceCtorEq, false_iff]
    rintro ⟨-, m', n', r, rfl, rfl, -⟩
    simp at hfloat
  | @divisionByZero a b ha hb =>
    simp only [Except.error.injEq, reduceCtorEq, false_iff]
    rintro ⟨-, m', n', r, rfl, rfl, hr, -⟩
    exact hr.not_isZero hb
  | text => simp
  | typeError hnumbers =>
    simp only [Except.error.injEq, reduceCtorEq, false_iff]
    rintro ⟨-, m', n', r, rfl, rfl, -⟩
    simp at hnumbers

variable {e : Expr}

/-- Two integers make an integer if the exact result is one, and a float if there is a
remainder. -/
theorem cases_of_integers {m n : Int64}
    (h : Outcome operation (.integer m) (.integer n) (.ok e)) :
    (∃ k : Int64, e = .integer k ∧ operation.IsExact m.toInt n.toInt k.toInt) ∨
      ∃ x, e = .float x ∧ operation = divide ∧ n.toInt ≠ 0 ∧ ¬n.toInt ∣ m.toInt := by
  cases h with
  | @integer _ _ _ k hexact => exact Or.inl ⟨k, rfl, hexact⟩
  | remainder x hn hdvd =>
    exact Or.inr ⟨x, rfl, rfl, fun hzero => hn (Int64.toInt_inj.mp hzero), hdvd⟩
  | float x _ _ hfloat => simp at hfloat

theorem exists_float (h : Outcome operation a b (.ok e)) (ha : a.IsNumber) (hb : b.IsNumber)
    (hfloat : a.kind = .float ∨ b.kind = .float) : ∃ x, e = .float x := by
  cases h with
  | integer => simp at hfloat
  | remainder x => exact ⟨x, rfl⟩
  | float x => exact ⟨x, rfl⟩
  | text => simp at ha

theorem eq_text {s t : String} (h : Outcome operation (.text s) (.text t) (.ok e)) :
    e = .text (s ++ t) := by
  cases h with
  | float x ha => simp at ha
  | text => rfl

theorem exists_ok_or_error (h : Outcome operation a b result) :
    (∃ e, result = .ok e) ∨ (∃ fault, result = .error (.typeError fault)) ∨
      result = .error .divisionByZero ∨ ∃ other, result = .error (.overflow other) := by
  cases h <;> simp

end Outcome

/-- An operation fails for the types of its operands unless both are numbers or, in an
addition, both are texts; for a division by zero exactly if one is asked of two numbers; and
for an overflow exactly if two integers have an exact integer result that 64 bits do not hold,
which a division has in one case only. Otherwise it gives a value. Two integers then give the
exact result if it is an integer, and a float only if a division leaves a remainder. With a
float among two numbers the result is a float, and two texts are joined. -/
theorem apply_result (operation : Arithmetic) (a b : Expr) :
    (∀ fault, operation.apply a b = .error (.typeError fault) ↔
      fault = .arithmetic operation a.kind b.kind ∧ ¬(a.IsNumber ∧ b.IsNumber) ∧
        ¬(operation = add ∧ a.kind = .text ∧ b.kind = .text)) ∧
    (operation.apply a b = .error .divisionByZero ↔
      operation = divide ∧ a.IsNumber ∧ b.IsNumber ∧ b.IsZero) ∧
    (∀ other, operation.apply a b = .error (.overflow other) ↔ other = operation ∧
      ∃ (m n : Int64) (r : ℤ), a = .integer m ∧ b = .integer n ∧
        operation.IsExact m.toInt n.toInt r ∧ IsOutside r) ∧
    (divide.apply a b = .error (.overflow divide) ↔
      a = .integer Int64.minValue ∧ b = .integer (-1)) ∧
    ((∃ e, operation.apply a b = .ok e) ∨
      (∃ fault, operation.apply a b = .error (.typeError fault)) ∨
      operation.apply a b = .error .divisionByZero ∨
      ∃ other, operation.apply a b = .error (.overflow other)) ∧
    ∀ e, operation.apply a b = .ok e →
      (∀ m n : Int64, a = .integer m → b = .integer n →
        (∀ r, operation.IsExact m.toInt n.toInt r → ∃ k : Int64, e = .integer k ∧ k.toInt = r) ∧
        ((∃ k : Int64, e = .integer k ∧ operation.IsExact m.toInt n.toInt k.toInt) ∨
          ∃ x, e = .float x ∧ operation = divide ∧ n.toInt ≠ 0 ∧ ¬n.toInt ∣ m.toInt)) ∧
      (a.IsNumber → b.IsNumber → a.kind = .float ∨ b.kind = .float → ∃ x, e = .float x) ∧
      ∀ s t, a = .text s → b = .text t → e = .text (s ++ t) := by
  have houtcome := outcome_apply operation a b
  refine ⟨fun fault => houtcome.eq_typeError_iff, houtcome.eq_divisionByZero_iff,
    fun other => houtcome.eq_overflow_iff, ?_, houtcome.exists_ok_or_error, ?_⟩
  · rw [(outcome_apply divide a b).eq_overflow_iff]
    constructor
    · rintro ⟨-, m, n, r, rfl, rfl, hexact, hout⟩
      obtain ⟨rfl, rfl⟩ := eq_of_isOutside_divide hexact hout
      exact ⟨rfl, rfl⟩
    · rintro ⟨rfl, rfl⟩
      refine ⟨rfl, Int64.minValue, -1, 2 ^ 63, rfl, rfl, ?_, Or.inr (by decide)⟩
      exact isExact_divide_iff.mpr ⟨by decide, by decide⟩
  · intro e he
    rw [he] at houtcome
    refine ⟨?_, houtcome.exists_float, ?_⟩
    · rintro m n rfl rfl
      have hcases := houtcome.cases_of_integers
      refine ⟨fun r hr => ?_, hcases⟩
      rcases hcases with ⟨k, rfl, hk⟩ | ⟨x, -, rfl, -, hdvd⟩
      · exact ⟨k, rfl, hk.unique hr⟩
      · exact absurd hr (not_isExact_of_not_dvd hdvd)
    · rintro s t rfl rfl
      exact houtcome.eq_text

/-- The least integer has no neighbour below and no opposite, a zero divides no number whatever
its sign, and the types of the operands come first. -/
theorem apply_result_limits :
    subtract.apply (.integer Int64.minValue) (.integer 1) = .error (.overflow subtract) ∧
    divide.apply (.integer Int64.minValue) (.integer (-1)) = .error (.overflow divide) ∧
    divide.apply (.integer 7) (.float (.finite true .zero)) = .error .divisionByZero ∧
    divide.apply (.text "7") (.integer 0) =
      .error (.typeError (.arithmetic divide .text .integer)) ∧
    ∃ k : Int64, divide.apply (.integer (-9)) (.integer 3) = .ok (.integer k) ∧ k.toInt = -3 := by
  have hquotient : divide.apply (.integer (-9)) (.integer 3) = .ok (.integer (-3)) := rfl
  have hexact : divide.IsExact (-9 : Int64).toInt (3 : Int64).toInt (-3) :=
    isExact_divide_iff.mpr ⟨by decide, by decide⟩
  obtain ⟨-, -, -, -, -, hok⟩ := apply_result divide (.integer (-9)) (.integer 3)
  obtain ⟨k, hk, hvalue⟩ := ((hok _ hquotient).1 _ _ rfl rfl).1 _ hexact
  refine ⟨?_, ?_, ?_, ?_, k, hk ▸ hquotient, hvalue⟩
  · exact ((apply_result subtract _ _).2.2.1 _).mpr
      ⟨rfl, _, _, _, rfl, rfl, ⟨by simp, Int.cast_sub _ _⟩, Or.inl (by decide)⟩
  · exact (apply_result divide _ _).2.2.2.1.mpr ⟨rfl, rfl⟩
  · exact (apply_result divide _ _).2.1.mpr
      ⟨rfl, Or.inl rfl, Or.inr rfl, Or.inr (Or.inr rfl)⟩
  · exact ((apply_result divide _ _).1 _).mpr
      ⟨rfl, by simp, by simp⟩

end Arithmetic

end RadarQuery
