import RadarQuery.Proofs.Eval.Operands

/-!
The number of arguments. A procedure with a fixed number of arguments refuses every other
number before it looks at any of them. After that it takes them apart, as many as its work
needs, and that is always the number that it asked for: so a call with the right number of
arguments is never refused for their number, and no error names another one.
-/

namespace RadarQuery.Procedure

def checkCount (p : Procedure) (args : List Expr) : Except EvalError Unit :=
  match p.arity with
  | none => .ok ()
  | some n => if args.length = n then .ok () else .error (.arity p.name n args.length)

def exactly (p : Procedure) (n : ℕ) (args : List Expr) : Except EvalError (Fin n → Expr) :=
  if h : args.length = n then .ok fun i => args.get (i.cast h.symm)
  else .error (.arity p.name n args.length)

/-- The work of each procedure, which takes as many arguments as it needs. -/
def dispatch (p : Procedure) (args : List Expr) : Except EvalError Expr :=
  match p with
  | arithmetic operation => do
    let a ← p.exactly 2 args
    cartesian operation.apply (a 0) (a 1)
  | comparison relation => do
    let a ← p.exactly 2 args
    (existential relation.apply (a 0) (a 1)).map .boolean
  | like => do
    let a ← p.exactly 2 args
    (existential RadarQuery.like (a 0) (a 1)).map .boolean
  | and => do
    let a ← p.exactly 2 args
    .ok (.boolean ((a 0).isTruthy && (a 1).isTruthy))
  | or => do
    let a ← p.exactly 2 args
    .ok (.boolean ((a 0).isTruthy || (a 1).isTruthy))
  | not => do
    let a ← p.exactly 1 args
    .ok (.boolean !(a 0).isTruthy)
  | member => do
    let a ← p.exactly 2 args
    (isMember (a 0) (a 1)).map .boolean
  | symbol => do
    let a ← p.exactly 1 args
    match (a 0).text?.or (a 0).symbol? with
    | some name => .ok (.symbol name)
    | none => .error (.typeError (.symbolName (a 0).kind))
  | list => .ok (.list args)
  | date => do
    let a ← p.exactly 3 args
    (p.dateArg (a 0) (a 1) (a 2)).map fun value => .text (String.ofList value.chars)
  | time => do
    let a ← p.exactly 3 args
    (p.timeArg (a 0) (a 1) (a 2)).map fun value => .text (String.ofList value.chars)
  | datetime => do
    let a ← p.exactly 6 args
    let day ← p.dateArg (a 0) (a 1) (a 2)
    let clock ← p.timeArg (a 3) (a 4) (a 5)
    .ok (.text (String.ofList (day.chars ++ clock.chars)))
  | attr tree => do
    let a ← p.exactly 2 args
    values tree (a 0) (a 1)

variable {p : Procedure} {args : List Expr} {n : ℕ}

theorem checkCount_eq_ok_iff :
    p.checkCount args = .ok () ↔ ∀ n, p.arity = some n → args.length = n := by
  unfold checkCount
  split
  case h_1 hnone => simp [hnone]
  case h_2 hsome =>
    split
    case isTrue hlength => simp [hsome, hlength]
    case isFalse hlength => simp [hsome, hlength]

theorem checkCount_eq_error_iff {cause : EvalError} : p.checkCount args = .error cause ↔
    ∃ n, p.arity = some n ∧ args.length ≠ n ∧ cause = .arity p.name n args.length := by
  unfold checkCount
  split
  case h_1 hnone => simp [hnone]
  case h_2 hsome =>
    split
    case isTrue hlength => simp [hsome, hlength]
    case isFalse hlength =>
      constructor
      · intro h
        cases h
        exact ⟨_, hsome, hlength, rfl⟩
      · rintro ⟨n, hn, -, rfl⟩
        cases hsome.symm.trans hn
        rfl

theorem exactly_of_length (h : args.length = n) :
    ∃ a : Fin n → Expr, p.exactly n args = .ok a :=
  ⟨_, dif_pos h⟩

/-- The number that a procedure takes its arguments apart by is the one that it asks for, and
its work on them is not what refuses a call. -/
theorem exists_dispatch_eq (h : p.arity = some n) :
    ∃ work : (Fin n → Expr) → Except EvalError Expr, (∀ a, ConcernsOperands (work a)) ∧
      ∀ args, p.dispatch args = (p.exactly n args).bind work := by
  cases p with
  | arithmetic operation =>
    cases h
    refine ⟨_, fun a => ?_, fun args => rfl⟩
    exact concernsOperands_cartesian _ _ operation.concernsOperands_apply
  | comparison relation =>
    cases h
    refine ⟨_, fun a => ?_, fun args => rfl⟩
    exact (concernsOperands_existential _ _ fun l r => concernsOperands_comparison l r _).map
  | like =>
    cases h
    refine ⟨_, fun a => ?_, fun args => rfl⟩
    exact (concernsOperands_existential _ _ concernsOperands_like).map
  | and =>
    cases h
    exact ⟨_, fun a => ConcernsOperands.ok _, fun args => rfl⟩
  | or =>
    cases h
    exact ⟨_, fun a => ConcernsOperands.ok _, fun args => rfl⟩
  | not =>
    cases h
    exact ⟨_, fun a => ConcernsOperands.ok _, fun args => rfl⟩
  | member =>
    cases h
    exact ⟨_, fun a => (concernsOperands_isMember _ _).map, fun args => rfl⟩
  | symbol =>
    cases h
    refine ⟨_, fun a => ?_, fun args => rfl⟩
    split <;> simp
  | list => cases h
  | date =>
    cases h
    exact ⟨_, fun a => (concernsOperands_dateArg _ _ _ _).map, fun args => rfl⟩
  | time =>
    cases h
    exact ⟨_, fun a => (concernsOperands_timeArg _ _ _ _).map, fun args => rfl⟩
  | datetime =>
    cases h
    refine ⟨_, fun a => ?_, fun args => rfl⟩
    exact (concernsOperands_dateArg _ _ _ _).bind fun day =>
      (concernsOperands_timeArg _ _ _ _).bind fun clock => ConcernsOperands.ok _
  | attr tree =>
    cases h
    exact ⟨_, fun a => concernsOperands_values _ _ _, fun args => rfl⟩

/-- With the right number of arguments nothing about their number goes wrong any more. -/
theorem concernsOperands_dispatch (h : ∀ n, p.arity = some n → args.length = n) :
    ConcernsOperands (p.dispatch args) := by
  cases hn : p.arity with
  | none =>
    cases p <;> cases hn
    exact ConcernsOperands.ok _
  | some n =>
    obtain ⟨work, hwork, hdispatch⟩ := exists_dispatch_eq hn
    obtain ⟨a, ha⟩ := exactly_of_length (h n hn)
    rw [hdispatch, ha]
    exact hwork a

theorem call_of_length_ne (h : p.arity = some n) (hlength : args.length ≠ n) :
    p.call args = .error (.arity p.name n args.length) := by
  unfold call
  split
  case h_9 => cases h
  case h_14 => rw [h, Option.getD_some]
  all_goals
    cases h
    exact absurd rfl hlength

theorem call_of_length (h : ∀ n, p.arity = some n → args.length = n) :
    p.call args = p.dispatch args := by
  cases p with
  | list => rfl
  | not | symbol =>
    obtain ⟨e, rfl⟩ := List.length_eq_one_iff.mp (h 1 rfl)
    rfl
  | date | time =>
    obtain ⟨a, b, c, rfl⟩ := List.length_eq_three.mp (h 3 rfl)
    rfl
  | datetime =>
    match args, h 6 rfl with
    | [_, _, _, _, _, _], _ => rfl
  | _ =>
    obtain ⟨l, r, rfl⟩ := List.length_eq_two.mp (h 2 rfl)
    rfl

/-- A call asks for the number of its arguments and then does its work. -/
theorem call_eq_bind_checkCount (p : Procedure) (args : List Expr) :
    p.call args = (p.checkCount args).bind fun _ => p.dispatch args := by
  cases hcount : p.checkCount args with
  | error cause =>
    obtain ⟨n, hn, hlength, rfl⟩ := checkCount_eq_error_iff.mp hcount
    exact call_of_length_ne hn hlength
  | ok _ => exact call_of_length (checkCount_eq_ok_iff.mp hcount)

/-- A call is refused for the number of its arguments or fails for what they are. -/
theorem call_cases (p : Procedure) (args : List Expr) : ConcernsOperands (p.call args) ∨
    ∃ n, p.arity = some n ∧ args.length ≠ n ∧
      p.call args = .error (.arity p.name n args.length) := by
  rw [call_eq_bind_checkCount]
  cases hcount : p.checkCount args with
  | error cause =>
    obtain ⟨n, hn, hlength, rfl⟩ := checkCount_eq_error_iff.mp hcount
    exact Or.inr ⟨n, hn, hlength, rfl⟩
  | ok _ => exact Or.inl (concernsOperands_dispatch (checkCount_eq_ok_iff.mp hcount))

/-- No procedure answers that a procedure is unknown. -/
theorem call_ne_unknownProcedure (p : Procedure) (args : List Expr) (name : String) :
    p.call args ≠ .error (.unknownProcedure name) := by
  rcases p.call_cases args with hoperands | ⟨n, -, -, hcount⟩
  · exact hoperands.ne_error trivial
  · simp [hcount]

theorem call_eq_arity_iff {procedure : String} {expected found : ℕ} :
    p.call args = .error (.arity procedure expected found) ↔
      p.arity = some expected ∧ args.length ≠ expected ∧ procedure = p.name ∧
        found = args.length := by
  constructor
  · intro h
    rcases p.call_cases args with hoperands | ⟨n, hn, hlength, hcount⟩
    · exact absurd h (hoperands.ne_error trivial)
    · rw [hcount] at h
      cases h
      exact ⟨hn, hlength, rfl, rfl⟩
  · rintro ⟨hn, hlength, rfl, rfl⟩
    exact call_of_length_ne hn hlength

theorem name_of_lookup {name : String} {tree : Option Metadata}
    (h : lookup name tree = some p) : p.name = name := by
  unfold lookup at h
  split at h
  case h_21 =>
    obtain ⟨m, -, rfl⟩ := Option.map_eq_some_iff.mp h
    rfl
  case h_22 => cases h
  all_goals
    cases h
    rfl

/-- A call of a procedure that is found asks for the number of arguments once, in front of all its
work. It gives an error about that number exactly if the procedure has a fixed one and the
arguments are more or fewer, whatever they are, and the error holds the name that was called
and both numbers. With the right number of arguments, or where any number will do, the
work takes its arguments apart without such an error, be it about another number. -/
theorem call_arity {name : String} {tree : Option Metadata} {p : Procedure}
    (hfound : lookup name tree = some p) (args : List Expr) :
    (p.call args = (p.checkCount args).bind fun _ => p.dispatch args) ∧
    (∀ procedure expected found, p.call args = .error (.arity procedure expected found) ↔
      p.arity = some expected ∧ args.length ≠ expected ∧ procedure = name ∧
        found = args.length) ∧
    ((∀ n, p.arity = some n → args.length = n) →
      ∀ procedure expected found, p.dispatch args ≠ .error (.arity procedure expected found)) := by
  refine ⟨call_eq_bind_checkCount p args, fun procedure expected found => ?_,
    fun hlength procedure expected found => (concernsOperands_dispatch hlength).ne_error trivial⟩
  rw [← name_of_lookup hfound]
  exact call_eq_arity_iff

/-- Three arguments are too few for a moment, though one of them is no integer either. Six of any
kind are enough, and so is every number of them for a list. -/
theorem call_arity_datetime :
    datetime.call [.integer 2024, .integer 2, .symbol "x"] = .error (.arity "datetime" 6 3) ∧
    (∀ procedure expected found, datetime.dispatch (List.replicate 6 (.symbol "x")) ≠
      .error (.arity procedure expected found)) ∧
    ∀ procedure expected found, list.call [] ≠ .error (.arity procedure expected found) := by
  have hdatetime : lookup "datetime" none = some datetime := rfl
  have hlist : lookup "list" none = some list := rfl
  refine ⟨((call_arity hdatetime _).2.1 _ _ _).mpr ⟨rfl, by decide, rfl, rfl⟩,
    (call_arity hdatetime _).2.2 ?_, fun procedure expected found h => ?_⟩
  · intro n hn
    cases hn
    rfl
  · cases (((call_arity hlist _).2.1 _ _ _).mp h).1

end RadarQuery.Procedure
