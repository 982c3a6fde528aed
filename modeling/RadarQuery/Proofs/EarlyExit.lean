import Mathlib.Logic.Basic

/-!
Lists that are gone through from the front until one element settles the result. Mapping a
list fails with its first element that fails, and asking whether some element meets a
condition ends with the first that does not plainly say no.
-/

namespace RadarQuery

variable {α β γ ε : Type}

/-- Either no element of a list has a property or there is a first one. -/
theorem forall_not_or_exists_first (P : α → Prop) (as : List α) :
    (∀ a ∈ as, ¬P a) ∨
      ∃ before a rest, as = before ++ a :: rest ∧ (∀ b ∈ before, ¬P b) ∧ P a := by
  induction as with
  | nil => exact Or.inl fun a ha => absurd ha List.not_mem_nil
  | cons a as ih =>
    by_cases ha : P a
    · exact Or.inr ⟨[], a, as, rfl, fun b hb => absurd hb List.not_mem_nil, ha⟩
    · rcases ih with hnone | ⟨before, b, rest, rfl, hbefore, hb⟩
      · exact Or.inl (List.forall_mem_cons.mpr ⟨ha, hnone⟩)
      · exact Or.inr ⟨a :: before, b, rest, rfl, List.forall_mem_cons.mpr ⟨ha, hbefore⟩, hb⟩

theorem not_exists_error_iff {x : Except ε α} :
    (¬∃ cause, x = .error cause) ↔ ∃ value, x = .ok value := by
  cases x <;> simp

theorem map_eq_ok_iff {x : Except ε α} {f : α → β} {b : β} :
    x.map f = .ok b ↔ ∃ a, x = .ok a ∧ f a = b := by
  cases x <;> simp [Except.map]

theorem bind_eq_ok_iff {x : Except ε α} {f : α → Except ε β} {b : β} :
    x.bind f = .ok b ↔ ∃ a, x = .ok a ∧ f a = .ok b := by
  cases x <;> simp [Except.bind]

section Map

variable {f : α → Except ε β}

theorem mapM_cons_eq_ok_iff {a : α} {as : List α} {bs : List β} :
    (a :: as).mapM f = .ok bs ↔ ∃ b rest, f a = .ok b ∧ as.mapM f = .ok rest ∧ bs = b :: rest := by
  rw [List.mapM_cons]
  cases f a with
  | error cause => simp [bind, Except.bind]
  | ok b => cases as.mapM f <;> simp [bind, Except.bind, pure, Except.pure, eq_comm]

/-- A list is mapped if each of its elements is. -/
theorem mapM_eq_ok_iff {as : List α} {bs : List β} :
    as.mapM f = .ok bs ↔ as.map f = bs.map .ok := by
  induction as generalizing bs with
  | nil => cases bs <;> simp [pure, Except.pure]
  | cons a as ih =>
    rw [mapM_cons_eq_ok_iff]
    constructor
    · intro h
      obtain ⟨b, rest, hfirst, hrest, rfl⟩ := h
      rw [List.map_cons, List.map_cons, hfirst, ih.mp hrest]
    · intro h
      cases bs with
      | nil => cases h
      | cons b rest =>
        rw [List.map_cons, List.map_cons, List.cons.injEq] at h
        exact ⟨b, rest, h.1, ih.mpr h.2, rfl⟩

theorem exists_of_mem_mapM {as : List α} {bs : List β} (h : as.mapM f = .ok bs) {b : β}
    (hb : b ∈ bs) : ∃ a ∈ as, f a = .ok b := by
  have hmem := List.mem_map_of_mem (f := Except.ok (ε := ε)) hb
  rw [← mapM_eq_ok_iff.mp h] at hmem
  exact List.mem_map.mp hmem

theorem exists_mapM_eq_ok {as : List α} (h : ∀ a ∈ as, ∃ b, f a = .ok b) :
    ∃ bs, as.mapM f = .ok bs := by
  induction as with
  | nil => exact ⟨[], rfl⟩
  | cons a as ih =>
    obtain ⟨⟨b, hb⟩, has⟩ := List.forall_mem_cons.mp h
    obtain ⟨bs, hbs⟩ := ih has
    exact ⟨b :: bs, mapM_cons_eq_ok_iff.mpr ⟨b, bs, hb, hbs, rfl⟩⟩

/-- Before an element that fails all have to be mapped; what stands behind it does not
count. -/
theorem mapM_append_cons {before rest : List α} {a : α} {cause : ε}
    (hbefore : ∀ b ∈ before, ∃ c, f b = .ok c) (ha : f a = .error cause) :
    (before ++ a :: rest).mapM f = .error cause := by
  induction before with
  | nil => simp [ha, bind, Except.bind]
  | cons b before ih =>
    obtain ⟨⟨c, hc⟩, hothers⟩ := List.forall_mem_cons.mp hbefore
    rw [List.cons_append, List.mapM_cons, hc, ih hothers]
    rfl

/-- The mapping of a list fails as the first of its elements that fails. -/
theorem mapM_eq_error_iff {as : List α} {cause : ε} :
    as.mapM f = .error cause ↔ ∃ before a rest, as = before ++ a :: rest ∧
      (∀ b ∈ before, ∃ c, f b = .ok c) ∧ f a = .error cause := by
  constructor
  · intro h
    rcases forall_not_or_exists_first (fun a => ∃ cause, f a = .error cause) as with
      hnone | ⟨before, a, rest, rfl, hbefore, found, hfound⟩
    · obtain ⟨bs, hbs⟩ := exists_mapM_eq_ok fun a ha => not_exists_error_iff.mp (hnone a ha)
      rw [hbs] at h
      cases h
    · have hall : ∀ b ∈ before, ∃ c, f b = .ok c := fun b hb =>
        not_exists_error_iff.mp (hbefore b hb)
      rw [mapM_append_cons hall hfound] at h
      cases h
      exact ⟨before, a, rest, rfl, hall, hfound⟩
  · rintro ⟨before, a, rest, rfl, hbefore, ha⟩
    exact mapM_append_cons hbefore ha

end Map

section Any

variable {p : α → Except ε Bool}

theorem anyM_singleton (p : α → Except ε Bool) (a : α) : [a].anyM p = p a := by
  rw [List.anyM]
  cases p a with
  | error cause => rfl
  | ok value => cases value <;> rfl

theorem anyM_eq_false {as : List α} (h : ∀ a ∈ as, p a = .ok false) :
    as.anyM p = .ok false := by
  induction as with
  | nil => rfl
  | cons a as ih =>
    obtain ⟨ha, hothers⟩ := List.forall_mem_cons.mp h
    rw [List.anyM, ha]
    exact ih hothers

/-- The first element that is not plainly false decides. -/
theorem anyM_append_cons {before rest : List α} {a : α} (hbefore : ∀ b ∈ before, p b = .ok false)
    (ha : p a ≠ .ok false) : (before ++ a :: rest).anyM p = p a := by
  induction before with
  | nil =>
    rw [List.nil_append, List.anyM]
    cases hvalue : p a with
    | error cause => rfl
    | ok value =>
      cases value with
      | true => rfl
      | false => exact absurd hvalue ha
  | cons b before ih =>
    obtain ⟨hb, hothers⟩ := List.forall_mem_cons.mp hbefore
    rw [List.cons_append, List.anyM, hb]
    exact ih hothers

end Any

section Flatten

/-- Mapping the pieces of a list one after the other is mapping the list. -/
theorem mapM_flatMap (f : β → Except ε γ) (g : α → List β) (as : List α) :
    (as.flatMap g).mapM f = as.flatMapM fun a => (g a).mapM f := by
  induction as with
  | nil => rfl
  | cons a as ih =>
    rw [List.flatMap_cons, List.mapM_append, List.flatMapM_cons, ih]

theorem anyM_append (p : α → Except ε Bool) (as bs : List α) :
    (as ++ bs).anyM p = (as.anyM p).bind fun found => if found then .ok true else bs.anyM p := by
  induction as with
  | nil => rfl
  | cons a as ih =>
    rw [List.cons_append, List.anyM, List.anyM, ih]
    cases p a with
    | error cause => rfl
    | ok value => cases value <;> rfl

theorem anyM_flatMap (p : β → Except ε Bool) (g : α → List β) (as : List α) :
    (as.flatMap g).anyM p = as.anyM fun a => (g a).anyM p := by
  induction as with
  | nil => rfl
  | cons a as ih =>
    rw [List.flatMap_cons, anyM_append, List.anyM, ih]
    cases (g a).anyM p with
    | error cause => rfl
    | ok value => cases value <;> rfl

theorem anyM_map (p : β → Except ε Bool) (g : α → β) (as : List α) :
    (as.map g).anyM p = as.anyM fun a => p (g a) := by
  induction as with
  | nil => rfl
  | cons a as ih =>
    rw [List.map_cons, List.anyM, List.anyM, ih]

end Flatten

end RadarQuery
