import SpatialQuery.Proofs.View.Replacement

/-!
Values as tokens: a value that matches the regular expression of its parameter is read as one literal,
as a number in parentheses or as one word, if what follows does not run into it (`readable_values_iff`).
-/

namespace SpatialQuery.View

open Token Lexical

/-- The value is one that the regular expression of the parameter lets pass. -/
def Accepted (fs : Assignment) : Prop :=
  ∀ f ∈ fs, f.1.kind.accepts (String.ofList f.2) = true

theorem isFigures_of_isDigits {cs : List Char} (h : ParameterKind.isDigits cs = true) :
    IsFigures cs := by
  simp only [ParameterKind.isDigits, Bool.and_eq_true, Bool.not_eq_true', List.isEmpty_eq_false_iff,
    List.all_eq_true] at h
  exact isFigures_of_digits h.1 h.2

theorem isFigures_takeWhile {cs : List Char} (h : (!(cs.takeWhile Char.isDigit).isEmpty) = true) :
    IsFigures (cs.takeWhile Char.isDigit) := by
  rw [Bool.not_eq_true', List.isEmpty_eq_false_iff] at h
  exact isFigures_of_digits h fun c hc => List.mem_takeWhile_imp hc

theorem exponentPart_of_isExponentPart {cs : List Char}
    (h : ParameterKind.isExponentPart cs = true) : ExponentPart cs := by
  have hmark : ∀ {e sign ds}, (e = 'e' ∨ e = 'E') → (sign = [] ∨ sign = ['+'] ∨ sign = ['-']) →
      IsFigures ds → ExponentPart (e :: (sign ++ ds)) := .mark
  unfold ParameterKind.isExponentPart at h
  split at h
  · exact .none
  · rename_i c cs
    simp only [Bool.and_eq_true, Bool.or_eq_true, beq_iff_eq] at h
    obtain ⟨he, h⟩ := h
    unfold ParameterKind.isExponent at h
    split at h
    · exact hmark he (.inr (.inr rfl)) (isFigures_of_isDigits h)
    · exact hmark he (.inr (.inl rfl)) (isFigures_of_isDigits h)
    · exact hmark he (.inl rfl) (isFigures_of_isDigits h)

theorem numeral_of_isFloat {cs : List Char} (h : ParameterKind.isFloat cs = true) :
    Numeral (ParameterKind.dropMinus cs) := by
  unfold ParameterKind.isFloat at h
  generalize ParameterKind.dropMinus cs = ds at h
  simp only [Bool.and_eq_true] at h
  obtain ⟨hwhole, hfraction⟩ := h
  have hf := isFigures_takeWhile hwhole
  rw [← List.takeWhile_append_dropWhile (p := Char.isDigit) (l := ds)]
  unfold ParameterKind.isFraction at hfraction
  split at hfraction
  · rename_i es he
    simp only [Bool.and_eq_true] at hfraction
    rw [he, ← List.takeWhile_append_dropWhile (p := Char.isDigit) (l := es)]
    refine ⟨_, _, .fraction hf (isFigures_takeWhile hfraction.1).2,
      exponentPart_of_isExponentPart hfraction.2, ?_⟩
    simp
  · exact ⟨_, _, .whole hf, exponentPart_of_isExponentPart hfraction, rfl⟩

/-! ## The tokens of one value -/

/-- Tokens directly one behind the other, with blanks in front of the first one. -/
def attached (blanks : List Char) : List Token → List Piece
  | [] => []
  | t :: ts => ⟨blanks, t⟩ :: ts.map (⟨[], ·⟩)

/-- A scan with more pieces in front. -/
def prepend (ps : List Piece) (s : Scan) : Scan :=
  ⟨ps ++ s.pieces, s.trailing⟩

theorem text_prepend_attached {ts : List Token} (hne : ts ≠ []) (blanks : List Char) (s : Scan) :
    (prepend (attached blanks ts) s).text = blanks ++ (ts.flatMap Token.text ++ s.text) := by
  obtain ⟨t, ts, rfl⟩ := List.exists_cons_of_ne_nil hne
  simp [prepend, attached, Scan.text, Piece.text, List.flatMap_map]

theorem readable_single_iff {blanks : List Char} {t : Token} {s : Scan} :
    Readable (prepend (attached blanks [t]) s) ↔
      (∀ c ∈ blanks, isSpace c = true) ∧ Lexeme .scanned t s.text ∧ Readable s :=
  readable_cons

theorem readable_of_prepend {ps : List Piece} {s : Scan} (h : Readable (prepend ps s)) : Readable s := by
  induction ps with
  | nil => exact h
  | cons p ps ih => exact ih (readable_cons.1 h).2.2

/-- A number in parentheses leaves what follows as it is. -/
theorem readable_number {value blanks : List Char} {s : Scan}
    (hnum : Numeral (ParameterKind.dropMinus value)) (hblank : ∀ c ∈ blanks, isSpace c = true)
    (hs : Readable s) : Readable (prepend (attached blanks (valueTokens .integer value)) s) := by
  have hclose : Readable (prepend (attached [] [⟨.number, ParameterKind.dropMinus value⟩,
      ⟨.punct ')', [')']⟩]) s) := by
    refine readable_cons.2 ⟨by simp, ?_, readable_cons.2 ⟨by simp, lexeme_mark (.inr (.inl rfl)) _, hs⟩⟩
    refine lexeme_number hnum fun c hc => ?_
    obtain rfl : c = ')' := Option.some.inj hc.symm
    rfl
  refine readable_cons.2 ⟨hblank, lexeme_mark (.inl rfl) _, ?_⟩
  unfold signTokens
  split
  · refine readable_cons.2 ⟨by simp, lexeme_minus ?_, hclose⟩
    obtain ⟨c, ds, he, hc⟩ := hnum.startsNumeral []
    simp only [ParameterKind.dropMinus] at he
    change (prepend (attached [] [⟨.number, _⟩, ⟨.punct ')', [')']⟩]) s).text.head? ≠ some '-'
    rw [text_prepend_attached (by simp), he]
    intro hminus
    obtain rfl : c = '-' := by simpa [ParameterKind.dropMinus] using hminus
    cases hc
  · exact hclose

/-- The tokens of a value are read again, unless what follows goes on with the literal or the word. -/
theorem readable_values_iff {kind : ParameterKind} {value blanks : List Char} {s : Scan}
    (hacc : kind.accepts (String.ofList value) = true) (hblank : ∀ c ∈ blanks, isSpace c = true)
    (hs : Readable s) : Readable (prepend (attached blanks (valueTokens kind value)) s) ↔
      (kind = .text → s.text.head? ≠ some '\'') ∧
        (kind = .boolean → ∀ c ∈ s.text.head?, isWordPart c = false) := by
  cases kind with
  | text =>
    have hq : '\'' ∉ value := by
      intro hmem
      simp only [ParameterKind.accepts, String.toList_ofList, List.all_eq_true] at hacc
      simpa using hacc _ hmem
    rw [valueTokens, readable_single_iff]
    constructor
    · rintro ⟨-, hl, -⟩
      exact ⟨fun _ => head?_of_literal hl rfl (by rw [List.getLast?_concat]), by simp⟩
    · rintro ⟨h, -⟩
      exact ⟨hblank, lexeme_literal hq (h rfl), hs⟩
  | boolean =>
    have hw : String.ofList value = "true" ∨ String.ofList value = "false" := by
      simpa [ParameterKind.accepts] using hacc
    rw [valueTokens, readable_single_iff]
    constructor
    · rintro ⟨-, hl, -⟩
      exact ⟨by simp, fun _ => head?_of_word hl rfl⟩
    · rintro ⟨-, h⟩
      refine ⟨hblank, ?_, hs⟩
      rcases hw with hw | hw
      · rw [← String.toList_ofList (l := value), hw]
        exact lexeme_word rfl (List.all_eq_true.1 rfl) (h rfl)
      · rw [← String.toList_ofList (l := value), hw]
        exact lexeme_word rfl (List.all_eq_true.1 rfl) (h rfl)
  | integer =>
    -- a number stands in parentheses, so whatever may follow them
    refine iff_of_true (readable_number ?_ hblank hs) ⟨by simp, by simp⟩
    rw [ParameterKind.accepts, String.toList_ofList] at hacc
    exact ⟨_, [], .whole (isFigures_of_isDigits hacc), .none, (List.append_nil _).symm⟩
  | float =>
    refine iff_of_true (readable_number ?_ hblank hs) ⟨by simp, by simp⟩
    rw [ParameterKind.accepts, String.toList_ofList] at hacc
    exact numeral_of_isFloat hacc

end SpatialQuery.View
