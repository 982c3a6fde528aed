import RadarQuery.Proofs.Token.Reading

/-!
All tokens of an input. Calls are made up to the first that gives no token, and it
either found the end of the input or could not read what stands there. Every run
of the lexer is a beginning of these tokens.
-/

namespace RadarQuery.Lexer

/-- The tokens that successive calls give up to the end of the input or the first error,
and that error. -/
def scan (l : Lexer) : List Token × Option LexError :=
  match _h : l.next with
  | (.error cause, _) => ([], some cause)
  | (.ok none, _) => ([], none)
  | (.ok (some t), after) => (t :: after.scan.1, after.scan.2)
termination_by l.rest.length
decreasing_by
  all_goals
    have hlt := length_next_lt (l := l) (by simp [_h])
    rwa [_h] at hlt

section Step

variable {l m : Lexer} {t : Token} {ts : List Token} {cause : LexError}

theorem scan_of_token (h : l.next = (.ok (some t), m)) : l.scan = (t :: m.scan.1, m.scan.2) := by
  rw [scan]
  split
  case h_1 hnext => simp [h] at hnext
  case h_2 hnext => simp [h] at hnext
  case h_3 hnext =>
    rw [h] at hnext
    cases hnext
    rfl

theorem scan_of_end (h : l.next.1 = .ok none) : l.scan = ([], none) := by
  rw [scan]
  split
  case h_1 hnext => simp [hnext] at h
  case h_2 => rfl
  case h_3 hnext => simp [hnext] at h

theorem scan_of_error (h : l.next.1 = .error cause) : l.scan = ([], some cause) := by
  rw [scan]
  split
  case h_1 hnext =>
    rw [hnext] at h
    cases h
    rfl
  case h_2 hnext => simp [hnext] at h
  case h_3 hnext => simp [hnext] at h

/-- The tokens after a run are those that the calls after it give. -/
theorem Reads.scan_eq (h : Reads l ts m) : l.scan = (ts ++ m.scan.1, m.scan.2) := by
  induction h with
  | nil => rfl
  | cons hnext _ ih => rw [scan_of_token hnext, ih, List.cons_append]

/-- The tokens of an input are a run to its end or to the error. -/
theorem exists_reads_scan (l : Lexer) :
    ∃ m, Reads l l.scan.1 m ∧ m.next.1 = l.scan.2.elim (.ok none) .error := by
  fun_induction scan l with
  | case1 l cause after hnext => exact ⟨l, Reads.nil l, by rw [hnext]; rfl⟩
  | case2 l after hnext => exact ⟨l, Reads.nil l, by rw [hnext]; rfl⟩
  | case3 l t after hnext ih =>
    obtain ⟨m, hreads, hstop⟩ := ih
    exact ⟨m, Reads.cons hnext hreads, hstop⟩

end Step

theorem scan_eq_none_iff {l : Lexer} {ts : List Token} :
    l.scan = (ts, none) ↔ ∃ m, Reads l ts m ∧ m.next.1 = .ok none := by
  constructor
  · intro h
    obtain ⟨m, hreads, hstop⟩ := l.exists_reads_scan
    rw [h] at hreads hstop
    exact ⟨m, hreads, hstop⟩
  · intro h
    obtain ⟨m, hreads, hend⟩ := h
    rw [hreads.scan_eq, scan_of_end hend, List.append_nil]

end RadarQuery.Lexer
