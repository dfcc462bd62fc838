import SpatialQuery.Proofs.View.Replacement
import SpatialQuery.Proofs.View.Values

/-!
The text of a statement with values in the places of its placeholders. It falls into the tokens of the
statement and those of the values exactly where no value runs into the token next to it
(`readable_filledScan_iff`).
-/

namespace SpatialQuery.View

open Token Lexical

/-- The scan of a statement with the tokens of values in the places of its placeholders. -/
def filledScan (fs : Assignment) (s : Scan) : Scan :=
  ⟨s.pieces.flatMap fun p => attached p.blanks (filledTokens fs p.token), s.trailing⟩

theorem filledTokens_ne_nil (fs : Assignment) (t : Token) : filledTokens fs t ≠ [] := by
  unfold filledTokens
  split
  · unfold valueTokens
    split <;> simp
  · simp

theorem filledScan_cons (fs : Assignment) (p : Piece) (ps : List Piece) (trailing : List Char) :
    filledScan fs ⟨p :: ps, trailing⟩ =
      prepend (attached p.blanks (filledTokens fs p.token)) (filledScan fs ⟨ps, trailing⟩) := rfl

theorem text_filledScan (fs : Assignment) (s : Scan) :
    (filledScan fs s).text = render (filledText fs) s := by
  obtain ⟨ps, trailing⟩ := s
  induction ps with
  | nil => rfl
  | cons p ps ih =>
    rw [filledScan_cons, text_prepend_attached (filledTokens_ne_nil fs p.token), ih, render_cons]
    rfl

theorem tokens_attached (blanks : List Char) (ts : List Token) :
    (attached blanks ts).map Piece.token = ts := by
  cases ts <;> simp [attached, Function.comp_def]

theorem tokens_filledScan (fs : Assignment) (s : Scan) :
    (filledScan fs s).tokens = s.tokens.flatMap (filledTokens fs) := by
  simp [Scan.tokens, filledScan, List.map_flatMap, List.flatMap_map, tokens_attached]

/-! ## What a token is followed by -/

variable {fs : Assignment}

/-- The first character of what stands in the place of a placeholder. -/
theorem head?_filledText {f : ViewParameter × List Char} {t : Token}
    (hacc : f.1.kind.accepts (String.ofList f.2) = true) (h : slot? fs t = some f) :
    (f.1.kind = .text → (filledText fs t).head? = some '\'') ∧
      (f.1.kind = .boolean → (filledText fs t).head? = some 't' ∨ (filledText fs t).head? = some 'f') ∧
      (f.1.kind ≠ .text → f.1.kind ≠ .boolean → (filledText fs t).head? = some '(') := by
  have htext : filledText fs t = (valueTokens f.1.kind f.2).flatMap Token.text := by
    simp [filledText, filledTokens, h]
  rw [htext]
  cases hk : f.1.kind with
  | text => simp [valueTokens]
  | boolean =>
    have hw : f.2 = "true".toList ∨ f.2 = "false".toList := by
      rw [hk] at hacc
      simpa [ParameterKind.accepts, ← String.toList_inj] using hacc
    rcases hw with hw | hw <;> simp [valueTokens, hw]
  | integer => simp [valueTokens]
  | float => simp [valueTokens]

theorem hasKind_iff {kind : ParameterKind} {t : Token} {f : ViewParameter × List Char}
    (h : slot? fs t = some f) : hasKind (fs.map Prod.fst) kind t ↔ f.1.kind = kind := by
  simp [hasKind, slot?_fst, h]

theorem not_hasKind {kind : ParameterKind} {t : Token} (h : slot? fs t = none) :
    ¬hasKind (fs.map Prod.fst) kind t := by
  simp [hasKind, slot?_fst, h]

/-- What stands in the place of a token: the token, or something else where a placeholder was. -/
theorem filledText_cases (hacc : Accepted fs) {R : Rules} {t : Token} {rest : List Char}
    (h : Lexeme R t rest) : slot? fs t = none ∨ t.text.head? = some '$' ∧ ∃ f, slot? fs t = some f ∧
      (f.1.kind = .text ∧ (filledText fs t).head? = some '\'' ∨
        f.1.kind = .boolean ∧ (∃ c ∈ (filledText fs t).head?, c = 't' ∨ c = 'f') ∨
        f.1.kind ≠ .text ∧ f.1.kind ≠ .boolean ∧ (filledText fs t).head? = some '(') := by
  cases hslot : slot? fs t with
  | none => exact .inl rfl
  | some f =>
    obtain ⟨n, hk, hf⟩ := kind_of_slot? hslot
    refine .inr ⟨head?_of_placeholder h hk, f, rfl, ?_⟩
    obtain ⟨htext, hbool, hnum⟩ := head?_filledText (hacc f (List.mem_of_getElem? hf)) hslot
    by_cases hkind : f.1.kind = .text
    · exact .inl ⟨hkind, htext hkind⟩
    by_cases hb : f.1.kind = .boolean
    · refine .inr (.inl ⟨hb, ?_⟩)
      rcases hbool hb with h | h
      · exact ⟨'t', h, .inl rfl⟩
      · exact ⟨'f', h, .inr rfl⟩
    · exact .inr (.inr ⟨hkind, hb, hnum hkind hb⟩)

theorem filledText_ne_nil (hacc : Accepted fs) {R : Rules} {t : Token} {rest : List Char}
    (h : Lexeme R t rest) : filledText fs t ≠ [] := by
  intro hnil
  rcases filledText_cases hacc h with he | ⟨-, f, -, ⟨-, he⟩ | ⟨-, c, hc, -⟩ | ⟨-, -, he⟩⟩
  · rw [filledText_of_none he] at hnil
    exact h.text_ne_nil hnil
  · simp [hnil] at he
  · simp [hnil] at hc
  · simp [hnil] at he

/-- What no blank is stands directly behind a token if the next token follows directly and begins so. -/
theorem starts_iff (hacc : Accepted fs) {behind : List Piece} {trailing : List Char}
    (hs : Readable ⟨behind, trailing⟩) {P : Char → Prop} (hP : ∀ c, isSpace c = true → ¬P c) :
    (∃ c ∈ (render (filledText fs) ⟨behind, trailing⟩).head?, P c) ↔
      ∃ q ∈ behind.head?, q.blanks = [] ∧ ∃ c ∈ (filledText fs q.token).head?, P c := by
  cases behind with
  | nil =>
    refine iff_of_false ?_ (by simp)
    rintro ⟨c, hc, h⟩
    rw [render_nil] at hc
    exact hP c (readable_nil.1 hs c (List.mem_of_mem_head? hc)) h
  | cons q behind =>
    obtain ⟨hblank, hl, -⟩ := readable_cons.1 hs
    rw [render_cons]
    cases hb : q.blanks with
    | cons b bs =>
      refine iff_of_false ?_ (by simp [hb])
      rintro ⟨c, hc, h⟩
      obtain rfl : b = c := Option.some.inj hc
      exact hP b (hblank b (by simp [hb])) h
    | nil =>
      obtain ⟨c, cs, he⟩ := List.exists_cons_of_ne_nil (filledText_ne_nil hacc hl)
      simp [hb, he]

theorem startsQuoted_iff (hacc : Accepted fs) {behind : List Piece} {trailing : List Char}
    (hs : Readable ⟨behind, trailing⟩) :
    (render (filledText fs) ⟨behind, trailing⟩).head? = some '\'' ↔
      StartsQuoted (fs.map Prod.fst) behind := by
  have hquote : ∀ cs : List Char, cs.head? = some '\'' ↔ ∃ c ∈ cs.head?, c = '\'' := by simp
  rw [hquote, starts_iff hacc hs (by rintro _ hspace rfl; exact absurd hspace (by decide))]
  refine exists_congr fun q => and_congr_right fun hq => and_congr_right fun _ => ?_
  obtain ⟨rest, hl⟩ := lexeme_of_readable hs (List.mem_of_mem_head? hq)
  rw [← hquote]
  rcases filledText_cases hacc hl with hslot | ⟨hd, f, hslot, hf⟩
  · rw [filledText_of_none hslot, or_iff_right (not_hasKind hslot)]
  rw [hasKind_iff hslot, hd]
  rcases hf with ⟨hk, he⟩ | ⟨hk, c, hc, hcs⟩ | ⟨hk, -, he⟩
  · simp [hk, he]
  · rw [Option.mem_def.1 hc]
    rcases hcs with rfl | rfl <;> simp [hk]
  · simp [hk, he]

theorem isWordPart_of_isSpace {c : Char} (h : isSpace c = true) : ¬isWordPart c = true := by
  simp only [isSpace, Bool.or_eq_true, beq_iff_eq] at h
  rcases h with (((rfl | rfl) | rfl) | rfl) | rfl <;> decide

theorem startsWord_iff (hacc : Accepted fs) {behind : List Piece} {trailing : List Char}
    (hs : Readable ⟨behind, trailing⟩) :
    (∃ c ∈ (render (filledText fs) ⟨behind, trailing⟩).head?, isWordPart c = true) ↔
      StartsWord (fs.map Prod.fst) behind := by
  rw [starts_iff hacc hs fun _ => isWordPart_of_isSpace]
  refine exists_congr fun q => and_congr_right fun hq => and_congr_right fun _ => ?_
  obtain ⟨rest, hl⟩ := lexeme_of_readable hs (List.mem_of_mem_head? hq)
  rcases filledText_cases hacc hl with hslot | ⟨hd, f, hslot, hf⟩
  · rw [filledText_of_none hslot, or_iff_right (not_hasKind hslot), slot?_fst, hslot]
    simp
  rw [hasKind_iff hslot, slot?_fst, hslot]
  rcases hf with ⟨hk, he⟩ | ⟨hk, c, hc, hcs⟩ | ⟨-, hk, he⟩
  · simp [hk, he]
    decide
  · rw [Option.mem_def.1 hc]
    rcases hcs with rfl | rfl <;> simp [hk] <;> decide
  · simp [hk, he]
    decide

/-! ## Tokens in front of values -/

/-- A token that a placeholder follows ends before what takes its place, but for a quote behind a
quote. -/
theorem endsBefore_of_dollar {t : Token} {rest : List Char} (h : Lexeme .scanned t rest)
    (hclosed : ∀ what, t.kind ≠ .unclosed what) (hd : rest.head? = some '$') {c : Char}
    (hc : c = '\'' ∨ c = '(' ∨ c = 't' ∨ c = 'f')
    (hq : t.kind = .stringLiteral → t.text.getLast? = some '\'' → c ≠ '\'') : EndsBefore t c := by
  have hstop : continuesNumeral c = false ∧ c.isDigit = false ∧ c ≠ '"' ∧ c ≠ '-' ∧ c ≠ '*' := by
    rcases hc with rfl | rfl | rfl | rfl <;> decide
  obtain ⟨hnum, hdigit, hname, hminus, hstar⟩ := hstop
  cases h with
  | @closed o =>
    cases o with
    | string => exact hq rfl
    | escapeString e => exact hq rfl
    | identifier => exact hname
    | comment => trivial
    | tagged tag => exact hq rfl
  | unclosed => exact absurd rfl (hclosed _)
  | lineComment _ hr => exact absurd (hr _ hd) (by decide)
  | placeholder => exact hdigit
  | number => exact hnum
  | word _ _ hr => exact absurd (hr _ hd) (by decide)
  | @punct d _ _ _ _ _ hb =>
    refine ⟨fun _ => hminus, fun _ => hstar, fun _ => hdigit, ?_⟩
    rintro rfl
    refine absurd (begins_dollar_iff.2 ⟨[], ⟨by simp, by simp⟩, rest.drop 1, ?_⟩) hb
    rw [eq_cons_of_head? (show (rest.head? == some '$') = true by simp [hd])]
    rfl

/-- The two texts are the same up to the first placeholder. -/
theorem render_common (hacc : Accepted fs) {ps : List Piece} {trailing : List Char}
    (hs : Readable ⟨ps, trailing⟩) :
    render (filledText fs) ⟨ps, trailing⟩ = Scan.text ⟨ps, trailing⟩ ∨
      ∃ cs ds es, Scan.text ⟨ps, trailing⟩ = cs ++ ds ∧ render (filledText fs) ⟨ps, trailing⟩ = cs ++ es ∧
        ds.head? = some '$' ∧ ∀ c ∈ es.head?, c = '\'' ∨ c = '(' ∨ c = 't' ∨ c = 'f' := by
  induction ps with
  | nil => exact .inl rfl
  | cons p ps ih =>
    obtain ⟨-, hl, hrest⟩ := readable_cons.1 hs
    rw [text_cons, render_cons]
    -- The first token with a value of its own is a placeholder; up to it the pieces are the same.
    rcases filledText_cases hacc hl with hslot | ⟨hd, f, -, hf⟩
    · rw [filledText_of_none hslot]
      rcases ih hrest with he | ⟨cs, ds, es, htext, hrender, h⟩
      · exact .inl (by rw [he])
      · exact .inr ⟨p.blanks ++ (p.token.text ++ cs), ds, es, by simp [htext], by simp [hrender], h⟩
    · refine .inr ⟨p.blanks, _, _, rfl, rfl, ?_, fun c hc => ?_⟩
      · obtain ⟨d, ds, he, -⟩ := hl.exists_cons
        rw [he] at hd ⊢
        exact hd
      · obtain ⟨d, ds, he⟩ := List.exists_cons_of_ne_nil (filledText_ne_nil hacc hl)
        rw [he] at hf hc
        simp only [List.cons_append, List.head?_cons, Option.mem_def, Option.some.injEq] at hf hc
        subst hc
        rcases hf with ⟨-, h⟩ | ⟨-, c, rfl, h⟩ | ⟨-, -, h⟩
        · exact .inl h
        · exact .inr (.inr h)
        · exact .inr (.inl h)

theorem separated_of_dollar {cs ds es : List Char} (hd : ds.head? = some '$')
    (he : ∀ c ∈ es.head?, c = '\'' ∨ c = '(' ∨ c = 't' ∨ c = 'f') : Separated cs ds es := by
  refine fun c hc => ⟨fun hnum => ?_, fun _ => .inl hd⟩
  rcases he c hc with rfl | rfl | rfl | rfl <;> exact absurd hnum (by decide)

/-- A token of the statement is one in front of the values, if no quotes meet. -/
theorem lexeme_filled (hacc : Accepted fs) {t : Token} {behind : List Piece} {trailing : List Char}
    (hl : Lexeme .scanned t (Scan.text ⟨behind, trailing⟩)) (hs : Readable ⟨behind, trailing⟩)
    (hclosed : ∀ what, t.kind ≠ .unclosed what)
    (hquotes : t.kind = .stringLiteral → t.text.getLast? = some '\'' →
      (render (filledText fs) ⟨behind, trailing⟩).head? ≠ some '\'') :
    Lexeme .scanned t (render (filledText fs) ⟨behind, trailing⟩) := by
  rcases render_common hacc hs with he | ⟨cs, ds, es, htext, hrender, hd, he⟩
  · rwa [he]
  rw [htext] at hl
  rw [hrender] at hquotes ⊢
  refine hl.of_common hclosed ?_ fun _ _ => separated_of_dollar hd he
  rintro rfl c hc
  refine endsBefore_of_dollar hl hclosed hd (he c hc) fun hk hlast hq => hquotes hk hlast ?_
  rw [List.nil_append, ← hq]
  exact hc

/-- The tokens in the places of the statement's are read again exactly where no value runs into the token
next to it. -/
theorem readable_filledScan_iff (hacc : Accepted fs) {s : Scan} (hs : Readable s)
    (hb : ∀ p ∈ s.pieces, Bound (fs.map Prod.fst) p.token) :
    Readable (filledScan fs s) ↔ KeptApart (fs.map Prod.fst) s.pieces := by
  obtain ⟨ps, trailing⟩ := s
  induction ps with
  | nil => exact iff_of_true hs trivial
  | cons p ps ih =>
    obtain ⟨hblank, hl, hrest⟩ := readable_cons.1 hs
    simp only [List.mem_cons, forall_eq_or_imp] at hb
    have htail := ih hrest hb.2
    have hquoted := startsQuoted_iff hacc hrest
    have hword := startsWord_iff hacc hrest
    rw [← text_filledScan] at hquoted hword
    rw [filledScan_cons, KeptApart, ← htail, ← hquoted, ← hword]
    cases hslot : slot? fs p.token with
    | none =>
      have hone : filledTokens fs p.token = [p.token] := by simp [filledTokens, hslot]
      rw [hone, readable_single_iff]
      simp only [EndsQuoted, not_hasKind hslot, false_or, false_implies, and_true]
      constructor
      · rintro ⟨-, hlex, hr⟩
        refine ⟨?_, hr⟩
        rintro ⟨hk, hlast⟩
        exact head?_of_literal hlex hk hlast
      · rintro ⟨hq, hr⟩
        refine ⟨hblank, ?_, hr⟩
        rw [text_filledScan] at hq ⊢
        exact lexeme_filled hacc hl hrest hb.1.closed fun hk hlast => hq ⟨hk, hlast⟩
    | some f =>
      obtain ⟨n, hk, hf⟩ := kind_of_slot? hslot
      have hvalue : filledTokens fs p.token = valueTokens f.1.kind f.2 := by
        simp [filledTokens, hslot]
      have hval := hacc f (List.mem_of_getElem? hf)
      simp only [EndsQuoted, hasKind_iff hslot, hk, reduceCtorEq, false_and, or_false, not_exists,
        not_and, Bool.not_eq_true]
      rw [hvalue]
      constructor
      · intro h
        have hr := readable_of_prepend h
        exact ⟨(readable_values_iff hval hblank hr).1 h, hr⟩
      · rintro ⟨⟨hq, hw⟩, hr⟩
        exact (readable_values_iff hval hblank hr).2 ⟨hq, hw⟩

end SpatialQuery.View
