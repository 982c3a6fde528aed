import RadarQuery.Proofs.Expr.Equality
import RadarQuery.Proofs.Expr.Layout

/-!
Writing an expression and reading it back. If all symbols have names that can be
read, the text is accepted and gives the expression with its special floats
turned into symbols. The result equals the expression exactly if the symbols can
be read and the floats are numbers: what is read has only readable symbols in
it, so an expression with another symbol never comes back as itself.
-/

namespace RadarQuery

theorem Atom.same_normal_iff (a : Atom) : a.normal.same a ↔ a.isFinite := by
  cases a with
  | float x =>
    cases x with
    | nan => simp [normal, same, isFinite, Double.isFinite]
    | infinity negative => cases negative <;> simp [normal, same, isFinite, Double.isFinite]
    | finite negative size =>
      simp [normal, same, isFinite, Double.isFinite, Double.equals_self_iff]
  | _ => simp [normal, same, isFinite]

namespace Expr

open Lexer

/-- Every expression that is read has readable symbols. -/
theorem symbolsReadable_of_parse {text : String} {e : Expr} (h : parse text = .ok e) :
    e.SymbolsReadable := by
  obtain ⟨m, hreads, _⟩ := parse_eq_ok_iff_reads.mp h
  intro a ha
  cases a with
  | symbol name => exact hreads.readsAsSymbol (mem_atoms_iff.mp ha)
  | _ => rfl

section Same

theorem exists_same_of_mem {es es' : List Expr} (h : sameItems es' es) {e : Expr} (he : e ∈ es) :
    ∃ e' ∈ es', e'.same e := by
  induction es generalizing es' with
  | nil => cases he
  | cons first rest ih =>
    cases es' with
    | nil => simp [sameItems] at h
    | cons first' rest' =>
      simp only [sameItems, Bool.and_eq_true] at h
      rcases List.mem_cons.mp he with rfl | he
      · exact ⟨first', List.mem_cons_self .., h.1⟩
      · obtain ⟨e', he', hsame⟩ := ih h.2 he
        exact ⟨e', List.mem_cons_of_mem _ he', hsame⟩

/-- Equal expressions have the same symbols. -/
theorem symbol_mem_of_same {e e' : Expr} (h : e'.same e) {name : String}
    (hname : .symbol name ∈ e.atoms) : .symbol name ∈ e'.atoms := by
  induction e using Expr.induction generalizing e' with
  | atom a =>
    obtain rfl : .symbol name = a := by simpa [atoms] using hname
    cases e' with
    | atom b => cases b <;> simp_all [same, Atom.same, atoms]
    | list items => simp [same] at h
  | list items ih =>
    cases e' with
    | atom b => simp [same] at h
    | list items' =>
      simp only [same] at h
      simp only [atoms, mem_atomsOfItems] at hname ⊢
      obtain ⟨e, he, hmem⟩ := hname
      obtain ⟨e', he', hsame⟩ := exists_same_of_mem h he
      exact ⟨e', he', ih e he hsame hmem⟩

theorem symbolsReadable_of_same {e e' : Expr} (h : e'.same e) (he' : e'.SymbolsReadable) :
    e.SymbolsReadable := by
  intro a ha
  cases a with
  | symbol name => exact he' _ (symbol_mem_of_same h ha)
  | _ => rfl

end Same

theorem same_normal_iff (e : Expr) : e.normal.same e ↔ e.FloatsFinite := by
  simp only [normal, same_mapAtoms_iff, Atom.same_normal_iff, FloatsFinite]

/-- An expression comes back as itself exactly if its symbols can be read and its floats
are numbers. Floats that are not numbers come back as symbols, and nothing else changes. -/
theorem parse_render_iff (e : Expr) :
    ((∃ e', parse e.render = .ok e' ∧ e'.same e) ↔ e.SymbolsReadable ∧ e.FloatsFinite) ∧
      (e.SymbolsReadable → parse e.render = .ok e.normal) := by
  refine ⟨⟨?_, ?_⟩, parse_render⟩
  · intro hread
    obtain ⟨e', hparse, hsame⟩ := hread
    have he : e.SymbolsReadable := symbolsReadable_of_same hsame (symbolsReadable_of_parse hparse)
    obtain rfl : e.normal = e' := by simpa using (parse_render he).symm.trans hparse
    exact ⟨he, (same_normal_iff e).mp hsame⟩
  · intro hparts
    obtain ⟨he, hfinite⟩ := hparts
    exact ⟨e.normal, parse_render he, (same_normal_iff e).mpr hfinite⟩

theorem parse_render_special_floats :
    parse (list [symbol "in", list [float .nan, text "a \"b)\n"],
        list [integer (-7), float (.infinity true)]]).render =
      .ok (list [symbol "in", list [symbol "NaN", text "a \"b)\n"],
        list [integer (-7), symbol "-inf"]]) :=
  (parse_render_iff (list [symbol "in", list [float .nan, text "a \"b)\n"],
    list [integer (-7), float (.infinity true)]])).2 (by decide)

end Expr

end RadarQuery
