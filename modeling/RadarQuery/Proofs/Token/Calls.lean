import Mathlib.Data.List.TakeWhile
import Mathlib.Logic.Function.Iterate
import Mathlib.Order.Monotone.Basic
import RadarQuery.Proofs.Token.Progress

/-!
Successive calls of the lexer, which go on after errors. A call that gives a token or an
error moves the position, and no call moves it back or out of the input. The end is found
where nothing but blanks is left, and then every later call finds it again, so there are
at most as many other calls as there are characters.
-/

namespace RadarQuery.Lexer

section Single

variable {l m : Lexer}

theorem Precedes.position_add_length (h : l.Precedes m) :
    m.position + m.rest.length = l.position + l.rest.length := by
  obtain ⟨used, hrest, hposition⟩ := h
  rw [hrest, hposition, List.length_append, Nat.add_assoc]

theorem Precedes.position_le (h : l.Precedes m) : l.position ≤ m.position := by
  obtain ⟨used, -, hposition⟩ := h
  omega

/-- What is left of a text is the part from the position on. -/
theorem Precedes.rest_eq_drop {text : String} (h : (ofText text).Precedes m) :
    m.rest = text.toList.drop m.position := by
  obtain ⟨used, hrest, hposition⟩ := h
  have hused : m.position = used.length := by simpa [ofText] using hposition
  have htext : text.toList = used ++ m.rest := hrest
  rw [htext, hused, List.drop_left]

/-- Where only blanks are left, a call moves to the end. -/
theorem next_of_blank (h : ∀ c ∈ l.rest, Text.isBlank c) :
    l.next = (.ok none, ⟨l.position + l.rest.length, []⟩) := by
  have htake : l.rest.takeWhile Text.isBlank = l.rest := List.takeWhile_eq_self_iff.mpr h
  have hdrop : l.rest.dropWhile Text.isBlank = [] := List.dropWhile_eq_nil_iff.mpr h
  simp only [next, htake, hdrop]

/-- The end is found where nothing but blanks is left. -/
theorem next_eq_none_iff : l.next.1 = .ok none ↔ ∀ c ∈ l.rest, Text.isBlank c := by
  constructor
  · intro h
    have hcall := outcome_next l
    generalize l.next = result at hcall h
    cases hcall with
    | ended hblank => exact hblank
    | opening => simp at h
    | closing => simp at h
    | text => exact absurd h (readText_ne_none _ _)
    | word => exact absurd h (readWord_ne_none _ _)
  · intro h
    rw [next_of_blank h]

/-- A token or an error moves the position. -/
theorem position_lt_next (h : l.next.1 ≠ .ok none) : l.position < l.next.2.position := by
  have hlength := length_next_lt h
  have hsum := (precedes_next l).position_add_length
  omega

end Single

section Successive

def afterCalls (l : Lexer) (n : ℕ) : Lexer :=
  (fun l => l.next.2)^[n] l

variable {l : Lexer}

theorem afterCalls_succ (l : Lexer) (n : ℕ) : l.afterCalls (n + 1) = (l.afterCalls n).next.2 :=
  Function.iterate_succ_apply' _ n l

theorem precedes_afterCalls (l : Lexer) (n : ℕ) : l.Precedes (l.afterCalls n) := by
  induction n with
  | zero => exact Precedes.refl l
  | succ n ih =>
    rw [afterCalls_succ]
    exact ih.trans (precedes_next _)

theorem monotone_position (l : Lexer) : Monotone fun n => (l.afterCalls n).position := by
  refine monotone_nat_of_le_succ fun n => ?_
  rw [afterCalls_succ]
  exact (precedes_next _).position_le

/-- Once the end is found, every later call finds it and moves no more. -/
theorem afterCalls_of_ended {n : ℕ} (h : (l.afterCalls n).next.1 = .ok none) {k : ℕ} (hk : n < k) :
    l.afterCalls k = ⟨l.position + l.rest.length, []⟩ := by
  induction k, hk using Nat.le_induction with
  | base =>
    have hsum := (precedes_afterCalls l n).position_add_length
    rw [Nat.succ_eq_add_one, afterCalls_succ, next_of_blank (next_eq_none_iff.mp h), hsum]
  | succ k _ ih =>
    rw [afterCalls_succ, ih, next_of_blank (by simp)]
    simp

/-- Without the end found, each call has moved the position by one at least. -/
theorem add_le_position {n : ℕ} (h : ∀ k < n, (l.afterCalls k).next.1 ≠ .ok none) :
    l.position + n ≤ (l.afterCalls n).position := by
  induction n with
  | zero => exact Nat.le_refl _
  | succ n ih =>
    have hbefore := ih fun k hk => h k (Nat.lt_succ_of_lt hk)
    have hmove := position_lt_next (h n (Nat.lt_succ_self n))
    rw [← afterCalls_succ] at hmove
    omega

theorem exists_ended (l : Lexer) : ∃ n ≤ l.rest.length, (l.afterCalls n).next.1 = .ok none := by
  by_contra hnone
  have hmove : l.position + (l.rest.length + 1) ≤ (l.afterCalls (l.rest.length + 1)).position :=
    add_le_position fun k hk hended => hnone ⟨k, Nat.le_of_lt_succ hk, hended⟩
  have hsum := (precedes_afterCalls l (l.rest.length + 1)).position_add_length
  omega

/-- Calls on a text never move back and never leave it. The end is found where only blanks are
left, and then every later call finds it at the end of the text; all other calls, errors among
them, move the position. So the end is found after at most as many other calls as there are
characters. -/
theorem position_of_calls (text : String) :
    (Monotone fun n => ((ofText text).afterCalls n).position) ∧
    (∀ n, ((ofText text).afterCalls n).position ≤ text.length) ∧
    (∀ n, ((ofText text).afterCalls n).next.1 = .ok none ↔
      ∀ c ∈ text.toList.drop ((ofText text).afterCalls n).position, Text.isBlank c) ∧
    (∀ n, ((ofText text).afterCalls n).next.1 = .ok none → ∀ k, n < k →
      ((ofText text).afterCalls k).position = text.length ∧
        ((ofText text).afterCalls k).next.1 = .ok none) ∧
    (∀ n, ((ofText text).afterCalls n).next.1 ≠ .ok none →
      ((ofText text).afterCalls n).position < ((ofText text).afterCalls (n + 1)).position) ∧
    ∃ n ≤ text.length, ((ofText text).afterCalls n).next.1 = .ok none := by
  have hlength : (ofText text).position + (ofText text).rest.length = text.length :=
    (Nat.zero_add _).trans (String.length_toList ..)
  refine ⟨monotone_position _, ?_, ?_, ?_, ?_, ?_⟩
  · intro n
    have hsum := (precedes_afterCalls (ofText text) n).position_add_length
    omega
  · intro n
    rw [next_eq_none_iff, (precedes_afterCalls (ofText text) n).rest_eq_drop]
  · intro n hended k hk
    rw [afterCalls_of_ended hended hk, hlength]
    exact ⟨rfl, next_eq_none_iff.mpr (by simp)⟩
  · intro n hmore
    rw [afterCalls_succ]
    exact position_lt_next hmore
  · obtain ⟨n, hn, hended⟩ := exists_ended (ofText text)
    exact ⟨n, by omega, hended⟩

/-- A bad escape and a bad number are passed, one after the other. -/
theorem position_of_calls_after_errors :
    ((ofText "\"\\q 1x").afterCalls 0).next.1 = .error (.invalidEscape 'q' 2) ∧
    ((ofText "\"\\q 1x").afterCalls 0).position < ((ofText "\"\\q 1x").afterCalls 1).position ∧
    ((ofText "\"\\q 1x").afterCalls 2).next.1 = .error (.invalidNumber "1x" 4) ∧
    ((ofText "\"\\q 1x").afterCalls 2).position < ((ofText "\"\\q 1x").afterCalls 3).position ∧
    ((ofText "\"\\q 1x").afterCalls 3).next.1 = .ok none ∧
    ((ofText "\"\\q 1x").afterCalls 5).position = 6 := by
  have hescape : ((ofText "\"\\q 1x").afterCalls 0).next.1 = .error (.invalidEscape 'q' 2) := by
    decide +kernel
  have hnumber : ((ofText "\"\\q 1x").afterCalls 2).next.1 = .error (.invalidNumber "1x" 4) := by
    decide +kernel
  have hended : ((ofText "\"\\q 1x").afterCalls 3).next.1 = .ok none := by
    decide +kernel
  obtain ⟨-, -, -, hlater, hmove, -⟩ := position_of_calls "\"\\q 1x"
  refine ⟨hescape, hmove 0 ?_, hnumber, hmove 2 ?_, hended, (hlater 3 hended 5 (by decide)).1⟩
  · simp [hescape]
  · simp [hnumber]

end Successive

end RadarQuery.Lexer
