import SpatialQuery.Proofs.Lexical.Reading

/-!
Scanning a whole text. Every text falls into tokens in exactly one way by given rules
(`lexed_iff_scan`), and `Scan.ofChars` finds the tokens of its rules (`lexed_scanned_iff`).
-/

namespace SpatialQuery.Lexical

open Token

theorem Lexeme.exists_cons {R : Rules} {t : Token} {rest : List Char} (h : Lexeme R t rest) :
    ∃ c cs, t.text = c :: cs ∧ isSpace c = false := by
  have ho : ∀ o : Opening, o.Allowed R → ∀ ds, ∃ c cs, o.text ++ ds = c :: cs ∧ isSpace c = false := by
    intro o ha ds
    cases o with
    | escapeString e => exact ⟨e, _, rfl, by rcases ha with rfl | rfl <;> rfl⟩
    | _ => exact ⟨_, _, rfl, rfl⟩
  cases h with
  | closed ha => exact ho _ ha _
  | unclosed ha => exact ho _ ha _
  | lineComment => exact ⟨_, _, rfl, rfl⟩
  | placeholder => exact ⟨_, _, rfl, rfl⟩
  | number hn =>
    obtain ⟨c, ds, rfl, hs⟩ := hn.startsNumeral []
    refine ⟨c, ds, rfl, ?_⟩
    rw [Bool.eq_false_iff]
    intro hc
    simp only [isSpace, Bool.or_eq_true, beq_iff_eq] at hc
    rcases hc with (((rfl | rfl) | rfl) | rfl) | rfl <;> simp [startsNumeral] at hs
  | @word c cs _ hw =>
    refine ⟨c, cs, rfl, ?_⟩
    rw [Bool.eq_false_iff]
    intro hc
    simp only [isSpace, Bool.or_eq_true, beq_iff_eq] at hc
    rcases hc with (((rfl | rfl) | rfl) | rfl) | rfl <;> exact absurd hw (by decide)
  | punct hc => exact ⟨_, _, rfl, hc⟩

theorem Lexeme.word_of_kind {R : Rules} {t : Token} {rest : List Char} (h : Lexeme R t rest)
    (hk : t.kind = .word) : ∃ c cs, t.text = c :: cs ∧ isWordStart c = true ∧
      ∀ d ∈ cs, isWordPart d = true := by
  cases h with
  | @closed o => cases o <;> cases hk
  | @unclosed o => cases hk
  | lineComment => cases hk
  | placeholder => cases hk
  | number => cases hk
  | @word c cs _ hw hd => exact ⟨c, cs, rfl, hw, hd⟩
  | punct => cases hk

theorem Lexeme.prefix_of_lineComment {R : Rules} {t : Token} {rest : List Char}
    (h : Lexeme R t rest) (hk : t.kind = .lineComment) : ['-', '-'] <+: t.text := by
  cases h with
  | @closed o => cases o <;> cases hk
  | lineComment => simp
  | _ => cases hk

theorem Lexeme.text_of_punct {R : Rules} {t : Token} {rest : List Char} (h : Lexeme R t rest)
    {c : Char} (hk : t.kind = .punct c) : t.text = [c] := by
  cases h with
  | @closed o => cases o <;> cases hk
  | punct => cases hk; rfl
  | _ => cases hk

theorem Rules.length_read_le (R : Rules) (c : Char) (cs : List Char) (hc : isSpace c = false) :
    (R.read c cs).2.length ≤ cs.length := by
  have h := congrArg List.length (R.read_append c cs)
  have := List.length_pos_iff.2 (lexeme_read R hc cs).text_ne_nil
  simp only [List.length_append, List.length_cons] at h
  omega

theorem isSpace_of_dropWhile {cs rest : List Char} {c : Char}
    (h : cs.dropWhile isSpace = c :: rest) : isSpace c = false :=
  head?_dropWhile (show c ∈ (cs.dropWhile isSpace).head? by simp [h])

/-- The tokens of a text by given rules. -/
def Rules.scan (R : Rules) (cs : List Char) : Scan :=
  match _h : cs.dropWhile isSpace with
  | [] => ⟨[], cs⟩
  | c :: rest =>
    let s := R.scan (R.read c rest).2
    ⟨⟨cs.takeWhile isSpace, (R.read c rest).1⟩ :: s.pieces, s.trailing⟩
termination_by cs.length
decreasing_by
  have := R.length_read_le c rest (isSpace_of_dropWhile _h)
  have := (List.dropWhile_suffix isSpace (l := cs)).length_le
  simp only [_h, List.length_cons] at this
  omega

theorem Rules.scan_of_dropWhile (R : Rules) {cs rest : List Char} {c : Char}
    (h : cs.dropWhile isSpace = c :: rest) :
    R.scan cs = ⟨⟨cs.takeWhile isSpace, (R.read c rest).1⟩ :: (R.scan (R.read c rest).2).pieces,
      (R.scan (R.read c rest).2).trailing⟩ := by
  rw [Rules.scan]
  split
  · rename_i h'
    rw [h] at h'
    cases h'
  · rename_i h'
    rw [h] at h'
    cases h'
    rfl

theorem lexed_scan (R : Rules) (cs : List Char) : Lexed R cs (R.scan cs) := by
  fun_induction Rules.scan R cs with
  | case1 cs h => exact .nil (List.dropWhile_eq_nil_iff.1 h)
  | case2 cs c rest h s ih =>
    have hblanks : ∀ d ∈ cs.takeWhile isSpace, isSpace d = true := fun d => List.mem_takeWhile_imp
    have hl := Lexed.cons hblanks (lexeme_read R (isSpace_of_dropWhile h) rest) ih
    rwa [R.read_append, ← h, List.takeWhile_append_dropWhile] at hl

theorem Rules.scan_blanks (R : Rules) {blanks : List Char} (h : ∀ c ∈ blanks, isSpace c = true) :
    R.scan blanks = ⟨[], blanks⟩ := by
  rw [Rules.scan]
  split
  · rfl
  · rename_i c rest hd
    rw [List.dropWhile_eq_nil_iff.2 h] at hd
    cases hd

/-- A token that the rules read is the first one of its text. -/
theorem Rules.scan_append (R : Rules) {blanks rest : List Char} {t : Token}
    (hb : ∀ c ∈ blanks, isSpace c = true) (ht : Lexeme R t rest) :
    R.scan (blanks ++ (t.text ++ rest)) =
      ⟨⟨blanks, t⟩ :: (R.scan rest).pieces, (R.scan rest).trailing⟩ := by
  obtain ⟨c, cs, he, hc⟩ := ht.exists_cons
  have hstop : ∀ d ∈ (t.text ++ rest).head?, isSpace d = false := by
    rw [he]
    simpa using hc
  have hdrop : (blanks ++ (t.text ++ rest)).dropWhile isSpace = c :: (cs ++ rest) := by
    rw [dropWhile_exact hb hstop, he, List.cons_append]
  rw [R.scan_of_dropWhile hdrop, takeWhile_exact hb hstop,
    read_of_lexeme ht (by rw [he, List.cons_append])]

theorem scan_of_lexed {R : Rules} {cs : List Char} {s : Scan} (h : Lexed R cs s) : R.scan cs = s := by
  induction h with
  | nil hb => exact R.scan_blanks hb
  | cons hb ht _ ih => rw [R.scan_append hb ht, ih]

/-- The rules split a text in one way only. -/
theorem lexed_iff_scan {R : Rules} {cs : List Char} {s : Scan} : Lexed R cs s ↔ s = R.scan cs := by
  constructor
  · intro h
    exact (scan_of_lexed h).symm
  · rintro rfl
    exact lexed_scan R cs

theorem scanned_scan (cs : List Char) : Rules.scanned.scan cs = Scan.ofChars cs := by
  fun_induction Scan.ofChars cs with
  | case1 cs h => exact Rules.scan_blanks _ (List.dropWhile_eq_nil_iff.1 h)
  | case2 cs c rest h s ih => rw [Rules.scan_of_dropWhile _ h, scanned_read, ih]

theorem lexed_scanned_iff {cs : List Char} {s : Scan} :
    Lexed .scanned cs s ↔ s = Scan.ofChars cs := by
  rw [lexed_iff_scan, scanned_scan]

theorem ofChars_blanks {blanks : List Char} (h : ∀ c ∈ blanks, isSpace c = true) :
    Scan.ofChars blanks = ⟨[], blanks⟩ := by
  rw [← scanned_scan, Rules.scan_blanks _ h]

theorem ofChars_append {blanks rest : List Char} {t : Token} (hb : ∀ c ∈ blanks, isSpace c = true)
    (ht : Lexeme .scanned t rest) :
    Scan.ofChars (blanks ++ (t.text ++ rest)) =
      ⟨⟨blanks, t⟩ :: (Scan.ofChars rest).pieces, (Scan.ofChars rest).trailing⟩ := by
  rw [← scanned_scan, Rules.scan_append _ hb ht, scanned_scan]

/-- The first token of a text that begins with one. -/
theorem ofChars_cons {c : Char} (hc : isSpace c = false) (cs : List Char) :
    Scan.ofChars (c :: cs) = ⟨⟨[], (Token.read c cs).1⟩ :: (Scan.ofChars (Token.read c cs).2).pieces,
      (Scan.ofChars (Token.read c cs).2).trailing⟩ := by
  have hnil : ∀ d ∈ ([] : List Char), isSpace d = true := by simp
  have h := ofChars_append hnil (lexeme_read .scanned hc cs)
  rwa [List.nil_append, scanned_read, Token.read_append] at h

/-- The scan of a text, with at most so many tokens. It can be computed by unfolding. -/
def scanWithin : Nat → List Char → Scan
  | 0, cs => ⟨[], cs⟩
  | bound + 1, cs =>
    match cs.dropWhile isSpace with
    | [] => ⟨[], cs⟩
    | c :: rest =>
      let s := scanWithin bound (Token.read c rest).2
      ⟨⟨cs.takeWhile isSpace, (Token.read c rest).1⟩ :: s.pieces, s.trailing⟩

/-- No text has more tokens than characters. -/
theorem ofChars_eq_scanWithin (bound : Nat) {cs : List Char} (h : cs.length ≤ bound) :
    Scan.ofChars cs = scanWithin bound cs := by
  induction bound generalizing cs with
  | zero =>
    rw [List.length_eq_zero_iff.1 (Nat.le_zero.1 h)]
    exact ofChars_blanks (by simp)
  | succ bound ih =>
    rw [scanWithin]
    split
    · rename_i hd
      exact ofChars_blanks (List.dropWhile_eq_nil_iff.1 hd)
    · rename_i c rest hd
      have hread := Token.length_read_le c rest
      have hdrop := (List.dropWhile_suffix isSpace (l := cs)).length_le
      rw [hd, List.length_cons] at hdrop
      rw [← scanned_scan, Rules.scan_of_dropWhile _ hd, scanned_read, scanned_scan, ih (by omega)]

theorem spans_length (offset : Nat) (ps : List Piece) : (Scan.spans offset ps).length = ps.length := by
  induction ps generalizing offset with
  | nil => rfl
  | cons p ps ih => simp [Scan.spans, ih]

theorem map_fst_located (s : Scan) : s.located.map Prod.fst = s.pieces := by
  rw [Scan.located, List.map_fst_zip]
  simp [spans_length]

/-- A scan without an unclosed construct has no unclosed token. -/
theorem unclosed?_eq_none_iff {s : Scan} :
    s.unclosed? = none ↔ ∀ p ∈ s.pieces, ∀ what, p.token.kind ≠ .unclosed what := by
  rw [Scan.unclosed?, List.findSome?_eq_none_iff, ← map_fst_located s]
  simp only [List.mem_map, forall_exists_index, and_imp, forall_apply_eq_imp_iff₂]
  refine forall₂_congr fun q _ => ?_
  split <;> simp_all

end SpatialQuery.Lexical
