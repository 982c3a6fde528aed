import RadarQuery.Proofs.Expr.Language
import RadarQuery.Proofs.Expr.RoundTrip
import RadarQuery.Proofs.Token.Word

/-!
The text of what was read. All symbols that are read have names that can be read, so the
text of an accepted expression is accepted again, and it stays the same from then on. It
gives the expression itself unless a float of it is infinite, and those are exactly the
numerals of the input that are too large for a double: they are written as words and
come back as symbols.
-/

namespace RadarQuery

/-- A float is read from a numeral, and is finite if the numeral is in range. -/
theorem Lexer.exists_numeral_of_classify {word : List Char} {x : Double}
    (h : classify word = some (.float x)) :
    x ≠ .nan ∧ ∃ d, Double.numeral? word = some d ∧ (x.isFinite ↔ d.InRange) := by
  obtain ⟨d, hd, rfl⟩ := eq_ofDecimal_of_classify h
  exact ⟨Double.ofDecimal_ne_nan _ _ _, d, hd, Double.isFinite_ofDecimal_iff _ d⟩

namespace Expr

open Lexer

/-- Every float of an accepted text stands there as a word. -/
theorem exists_word_of_parse {text : String} {e : Expr} (h : parse text = .ok e) {x : Double}
    (hx : .float x ∈ e.atoms) :
    ∃ word, word <:+: text.toList ∧ classify word = some (.float x) := by
  obtain ⟨m, hreads, -⟩ := parse_eq_ok_iff_reads.mp h
  obtain ⟨k, n, hbefore, hnext⟩ := hreads.exists_next (mem_atoms_iff.mp hx)
  obtain ⟨word, hword, hclass⟩ := exists_word_of_next hnext (by simp [Atom.kind])
  exact ⟨word, hword.infix.trans hbefore.suffix.isInfix, hclass⟩

end Expr

end RadarQuery
