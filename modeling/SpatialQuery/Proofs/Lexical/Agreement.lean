import SpatialQuery.Proofs.Lexical.Scanning

/-!
How far the scan agrees with the rules of PostgreSQL. The two put the boundaries of comments, literals
and quoted identifiers in the same places exactly for texts that conform (`boundaries_eq_iff_conforms`):
no line comment goes on behind a carriage return, and no dollar sign opens a tag with letters outside
ASCII.
-/

namespace SpatialQuery.Lexical

open Token

/-- The byte offsets at which the tokens that are no code begin and end. -/
def boundariesFrom (offset : Nat) (ps : List Piece) : List (Nat × Nat) :=
  ((ps.zip (Scan.spans offset ps)).filter fun (p, _) => isEnclosed p.token).map Prod.snd

def boundaries (s : Scan) : List (Nat × Nat) :=
  boundariesFrom 0 s.pieces

/-- A word that holds a dollar sign stands directly at the front. -/
def HidesTag (ps : List Piece) : Prop :=
  ∃ p ∈ ps.head?, p.blanks = [] ∧ p.token.kind = .word ∧ '$' ∈ p.token.text

/-- A line comment holds no carriage return, and no tag is hidden behind a dollar sign. -/
def Agrees (t : Token) (behind : List Piece) : Prop :=
  (t.kind = .lineComment → '\r' ∉ t.text) ∧ (t.kind = .punct '$' → ¬HidesTag behind)

def Conforms : List Piece → Prop
  | [] => True
  | p :: ps => Agrees p.token ps ∧ Conforms ps

theorem isEnclosed_read (o : Opening) (cs : List Char) : isEnclosed (o.read cs).1 = true := by
  unfold Opening.read
  cases o.close? cs with
  | none => rfl
  | some _ => cases o <;> rfl

/-! ## Line comments -/

theorem takeWhile_eq_iff {p q : Char → Bool} (hpq : ∀ c, p c = true → q c = true) (cs : List Char) :
    cs.takeWhile p = cs.takeWhile q ↔ ∀ c ∈ cs.takeWhile q, p c = true := by
  induction cs with
  | nil => simp
  | cons c cs ih =>
    rw [List.takeWhile_cons, List.takeWhile_cons]
    by_cases hp : p c = true
    · simp [hp, hpq c hp, ih]
    · by_cases hq : q c = true <;> simp [hp, hq]

theorem takeWhile_endsLine_eq_iff (cs : List Char) :
    cs.takeWhile (!Rules.postgres.endsLine ·) = cs.takeWhile (!Rules.scanned.endsLine ·) ↔
      '\r' ∉ cs.takeWhile (!Rules.scanned.endsLine ·) := by
  have hends : ∀ c, (!Rules.postgres.endsLine c) = true → (!Rules.scanned.endsLine c) = true := by
    intro c h
    simp only [Rules.postgres, Rules.scanned, Bool.not_eq_true', Bool.or_eq_false_iff] at h ⊢
    exact h.1
  rw [takeWhile_eq_iff hends]
  constructor
  · intro h hr
    exact absurd (h _ hr) (by decide)
  · intro h c hc
    have hn := List.mem_takeWhile_imp hc
    simp only [Rules.postgres, Rules.scanned, Bool.not_eq_true', Bool.or_eq_false_iff,
      beq_eq_false_iff_ne] at hn ⊢
    refine ⟨hn, ?_⟩
    rintro rfl
    exact h hc

/-- Readings with the same token leave the same text. -/
theorem read_eq_of_token_eq {R S : Rules} {c : Char} {cs : List Char}
    (h : (R.read c cs).1 = (S.read c cs).1) : R.read c cs = S.read c cs := by
  have ha := (R.read_append c cs).trans (S.read_append c cs).symm
  rw [h] at ha
  exact Prod.ext h (List.append_cancel_left ha)

theorem lineComment_read_eq_iff (cs : List Char) :
    Rules.postgres.read '-' ('-' :: cs) = Rules.scanned.read '-' ('-' :: cs) ↔
      '\r' ∉ (Rules.scanned.read '-' ('-' :: cs)).1.text := by
  have hr : ∀ ds, '\r' ∉ '-' :: '-' :: ds ↔ '\r' ∉ ds := by
    intro ds
    simp [show ('\r' : Char) ≠ '-' by decide]
  constructor
  · intro h
    have ht := congrArg (·.1.text) h
    simp only [Rules.read_lineComment, List.cons.injEq, true_and] at ht
    rw [Rules.read_lineComment, hr, ← takeWhile_endsLine_eq_iff]
    exact ht
  · intro h
    apply read_eq_of_token_eq
    rw [Rules.read_lineComment, hr, ← takeWhile_endsLine_eq_iff] at h
    rw [Rules.read_lineComment, Rules.read_lineComment, h]

/-! ## Tags -/

theorem isTag_postgres {tag : List Char} (h : Rules.scanned.IsTag tag) : Rules.postgres.IsTag tag := by
  have hl : ∀ c, Rules.scanned.isTagLetter c = true → Rules.postgres.isTagLetter c = true := by
    intro c hc
    simp only [Rules.scanned, Rules.postgres, isWordStart] at hc ⊢
    simp [hc]
  refine ⟨fun c hc => hl c (h.1 c hc), fun c hc => ?_⟩
  have hp := h.2 c hc
  simp only [Rules.isTagPart, Bool.or_eq_true] at hp ⊢
  exact hp.imp_left (hl c)

theorem postgres_isTagPart_iff {c : Char} :
    Rules.postgres.isTagPart c = true ↔ isWordPart c = true ∧ c ≠ '$' := by
  have hd : Rules.postgres.isTagPart '$' = false := Rules.postgres.isTagPart_dollar
  simp only [Rules.isTagPart, Rules.postgres, isWordPart, Bool.or_eq_true, beq_iff_eq] at hd ⊢
  constructor
  · intro h
    refine ⟨.inl h, ?_⟩
    rintro rfl
    simp at h
    exact absurd h (by decide)
  · rintro ⟨h | rfl, hne⟩
    · exact h
    · exact absurd rfl hne

theorem exists_tag_of_hidesTag {cs : List Char} (h : HidesTag (Scan.ofChars cs).pieces) :
    ∃ tag, Rules.postgres.IsTag tag ∧ tag ++ ['$'] <+: cs := by
  obtain ⟨p, hp, hblank, hkind, hmem⟩ := h
  have hl := lexed_scanned_iff.2 (rfl : Scan.ofChars cs = Scan.ofChars cs)
  generalize Scan.ofChars cs = s at hp hl
  cases hl with
  | nil => simp at hp
  | @cons blanks rest t s hb ht =>
    simp only [List.head?_cons, Option.mem_def, Option.some.injEq] at hp
    subst hp
    simp only at hblank hkind hmem
    subst hblank
    obtain ⟨c, ds, htext, hw, hd⟩ := ht.word_of_kind hkind
    have hc : c ≠ '$' := isWordStart_ne hw rfl
    -- the tag is the word up to its first dollar sign
    obtain ⟨more, hmore⟩ : ∃ more, ds.dropWhile (· != '$') = '$' :: more := by
      have hne : ds.dropWhile (· != '$') ≠ [] := by
        rw [Ne, List.dropWhile_eq_nil_iff]
        intro hall
        rw [htext] at hmem
        rcases List.mem_cons.1 hmem with h | h
        · exact hc h.symm
        · simpa using hall _ h
      obtain ⟨d, more, he⟩ := List.exists_cons_of_ne_nil hne
      have hd := head?_dropWhile (show d ∈ (ds.dropWhile (· != '$')).head? by simp [he])
      rw [bne_eq_false_iff_eq] at hd
      exact ⟨more, by rw [he, hd]⟩
    refine ⟨c :: ds.takeWhile (· != '$'), ⟨?_, ?_⟩, more ++ rest, ?_⟩
    · intro d hmem
      rw [List.head?_cons, Option.mem_def, Option.some.injEq] at hmem
      exact hmem ▸ hw
    · intro d hmem
      rw [postgres_isTagPart_iff]
      rcases List.mem_cons.1 hmem with rfl | hmem
      · exact ⟨by simp [isWordPart, hw], hc⟩
      · have hne := List.mem_takeWhile_imp hmem
        exact ⟨hd d ((List.takeWhile_sublist _).mem hmem), by simpa using hne⟩
    · have hsplit := List.takeWhile_append_dropWhile (p := (· != '$')) (l := ds)
      rw [hmore] at hsplit
      rw [htext]
      conv => rhs; rw [← hsplit]
      simp

theorem hidesTag_of_tag {tag cs : List Char} (htag : Rules.postgres.IsTag tag)
    (hp : tag ++ ['$'] <+: cs) (hne : tag ≠ []) : HidesTag (Scan.ofChars cs).pieces := by
  obtain ⟨c, tag, rfl⟩ := List.exists_cons_of_ne_nil hne
  obtain ⟨rest, rfl⟩ := hp
  have hw : isWordStart c = true := htag.1 c (by simp)
  have hs : isSpace c = false := by
    rw [Bool.eq_false_iff]
    intro hc
    simp only [isSpace, Bool.or_eq_true, beq_iff_eq] at hc
    rcases hc with (((rfl | rfl) | rfl) | rfl) | rfl <;> exact absurd hw (by decide)
  have hpart : ∀ d ∈ tag, isWordPart d = true := fun d hd =>
    (postgres_isTagPart_iff.1 (htag.2 d (List.mem_cons_of_mem c hd))).1
  -- A dollar sign is no quote, so the tag opens nothing: it is read as a word that takes the dollar sign along.
  have hb : ¬Begins .scanned (c :: (tag ++ '$' :: rest)) := by
    rw [begins_word_iff hw]
    rintro ⟨-, hq⟩
    cases tag with
    | nil => simp at hq
    | cons d tag =>
      simp only [List.cons_append, List.head?_cons, Option.some.injEq] at hq
      exact absurd (hpart d (by simp)) (by rw [hq]; decide)
  have he : c :: tag ++ ['$'] ++ rest = c :: (tag ++ '$' :: rest) := by simp
  rw [he, ofChars_cons hs, ← scanned_read, Rules.read_word .scanned hw hb]
  refine ⟨_, rfl, rfl, rfl, ?_⟩
  rw [List.takeWhile_append_of_pos hpart, List.takeWhile_cons, if_pos (by rfl)]
  simp

/-- A dollar sign begins a placeholder, a tagged text or nothing. -/
theorem Rules.read_dollar_cases (R : Rules) (cs : List Char) :
    ((∃ c ∈ cs.head?, c.isDigit = true) ∧ R.read '$' cs = (⟨.placeholder (placeholderIndex
      (cs.takeWhile Char.isDigit)), '$' :: cs.takeWhile Char.isDigit⟩, cs.dropWhile Char.isDigit)) ∨
    (∃ tag rest, R.IsTag tag ∧ cs = tag ++ '$' :: rest ∧
      R.read '$' cs = (Opening.tagged tag).read rest) ∨
    (∀ c ∈ cs.head?, c.isDigit = false) ∧ (∀ tag, R.IsTag tag → ¬tag ++ ['$'] <+: cs) ∧
      R.read '$' cs = (⟨.punct '$', ['$']⟩, cs) := by
  by_cases hd : ∃ c ∈ cs.head?, c.isDigit = true
  · refine .inl ⟨hd, ?_⟩
    rw [R.read_dollar, Rules.readDollar, if_neg]
    cases cs <;> simp_all
  have hd' : ∀ c ∈ cs.head?, c.isDigit = false := by simpa using hd
  by_cases hb : ∃ tag, R.IsTag tag ∧ tag ++ ['$'] <+: cs
  · obtain ⟨tag, htag, rest, rfl⟩ := hb
    refine .inr (.inl ⟨tag, rest, htag, by simp, ?_⟩)
    rw [List.append_assoc, List.singleton_append, R.read_dollar, R.readDollar_tagged htag]
  · have hb' : ∀ tag, R.IsTag tag → ¬tag ++ ['$'] <+: cs := fun tag ht hp => hb ⟨tag, ht, hp⟩
    refine .inr (.inr ⟨hd', hb', R.readDollar_punct hd' ?_⟩)
    rw [begins_dollar_iff]
    exact hb

theorem dollar_read_eq_iff (cs : List Char) :
    Rules.postgres.read '$' cs = Rules.scanned.read '$' cs ↔
      ((Rules.scanned.read '$' cs).1.kind = .punct '$' →
        ¬HidesTag (Scan.ofChars (Rules.scanned.read '$' cs).2).pieces) := by
  -- a placeholder, a tag that both have, or a dollar sign that only one of the two takes for a tag
  rcases Rules.scanned.read_dollar_cases cs with ⟨⟨c, hc, hd⟩, hread⟩ | ⟨tag, rest, htag, rfl, hread⟩ |
    ⟨hd, hnone, hread⟩
  · rcases Rules.postgres.read_dollar_cases cs with ⟨-, hpg⟩ | ⟨tag, rest, htag, rfl, -⟩ | ⟨hd', -⟩
    · rw [hread, hpg]
      simp
    · cases tag with
      | nil =>
        simp only [List.nil_append, List.head?_cons, Option.mem_def, Option.some.injEq] at hc
        exact absurd hd (by rw [← hc]; decide)
      | cons e tag =>
        simp only [List.cons_append, List.head?_cons, Option.mem_def, Option.some.injEq] at hc
        subst hc
        have := htag.1 e (by simp)
        simp [Rules.postgres.isTagLetter_digit e hd] at this
    · simp [hd' c hc] at hd
  · rw [hread, Rules.read_dollar, Rules.readDollar_tagged _ (isTag_postgres htag)]
    simp only [true_iff]
    intro hk
    exact absurd (isEnclosed_read (.tagged tag) rest) (by simp [isEnclosed, hk])
  · rw [hread]
    simp only [true_implies]
    constructor
    · intro h hhides
      obtain ⟨tag, htag, rest, rfl⟩ := exists_tag_of_hidesTag hhides
      rw [List.append_assoc, List.singleton_append, Rules.read_dollar,
        Rules.readDollar_tagged _ htag] at h
      exact absurd (isEnclosed_read (.tagged tag) rest) (by simp [isEnclosed, h])
    · intro h
      refine Rules.readDollar_punct _ hd ?_
      rw [begins_dollar_iff]
      rintro ⟨tag, htag, hp⟩
      refine h (hidesTag_of_tag htag hp ?_)
      rintro rfl
      exact hnone [] ⟨by simp, by simp⟩ hp

/-! ## One token -/

theorem read_eq_of_not_special {R S : Rules} {c : Char} {cs : List Char}
    (hc : ¬(c = '-' ∧ cs.head? = some '-')) (hd : c ≠ '$') : R.read c cs = S.read c cs := by
  simp [Rules.read, hc, hd]

/-- PostgreSQL reads another token only where the scan reads one that does not agree. -/
theorem postgres_read_eq_iff {c : Char} (hs : isSpace c = false) (cs : List Char) :
    Rules.postgres.read c cs = Rules.scanned.read c cs ↔
      Agrees (Rules.scanned.read c cs).1 (Rules.scanned.scan (Rules.scanned.read c cs).2).pieces := by
  rw [scanned_scan]
  have hl := lexeme_read .scanned hs cs
  have ha := Rules.scanned.read_append c cs
  by_cases hc : c = '-' ∧ cs.head? = some '-'
  · obtain ⟨rfl, h⟩ := hc
    obtain ⟨ds, rfl⟩ : ∃ ds, cs = '-' :: ds := ⟨_, eq_cons_of_head? (by simp [h])⟩
    rw [lineComment_read_eq_iff, Agrees]
    simp [Rules.read_lineComment]
  have hline : (Rules.scanned.read c cs).1.kind ≠ .lineComment := by
    intro hk
    obtain ⟨more, he⟩ := hl.prefix_of_lineComment hk
    rw [← he, List.append_assoc, List.cons_append, List.singleton_append, List.cons.injEq] at ha
    exact hc ⟨ha.1.symm, by rw [← ha.2]; rfl⟩
  rw [Agrees, and_iff_right (fun h => absurd h hline)]
  by_cases hd : c = '$'
  · subst hd
    exact dollar_read_eq_iff cs
  · refine iff_of_true (read_eq_of_not_special hc hd) ?_
    intro hk
    rw [hl.text_of_punct hk] at ha
    exact absurd (List.cons.inj ha).1.symm hd

/-- Where the readings differ, PostgreSQL reads no code, and the scan reads code or another text. -/
theorem isEnclosed_of_read_ne {c : Char} {cs : List Char}
    (h : Rules.postgres.read c cs ≠ Rules.scanned.read c cs) :
    isEnclosed (Rules.postgres.read c cs).1 = true ∧
      (isEnclosed (Rules.scanned.read c cs).1 = true →
        (Rules.scanned.read c cs).1.text ≠ (Rules.postgres.read c cs).1.text) := by
  by_cases hc : c = '-' ∧ cs.head? = some '-'
  · obtain ⟨rfl, hh⟩ := hc
    obtain ⟨ds, rfl⟩ : ∃ ds, cs = '-' :: ds := ⟨_, eq_cons_of_head? (by simp [hh])⟩
    refine ⟨by rw [Rules.read_lineComment]; rfl, fun _ ht => h (read_eq_of_token_eq ?_)⟩
    simp only [Rules.read_lineComment, List.cons.injEq, true_and] at ht ⊢
    rw [ht]
  -- the two readers differ in their tags only
  by_cases hd : c = '$'
  case neg => exact absurd (read_eq_of_not_special hc hd) h
  subst hd
  rcases Rules.scanned.read_dollar_cases cs with ⟨⟨c, hc, hd⟩, hs⟩ | ⟨tag, rest, htag, rfl, -⟩ |
    ⟨hd, -, hs⟩
  · rcases Rules.postgres.read_dollar_cases cs with ⟨-, hread⟩ | ⟨tag, rest, -, -, hread⟩ | ⟨hd', -⟩
    · exact absurd (hread.trans hs.symm) h
    · rw [hread, hs]
      exact ⟨isEnclosed_read _ rest, fun he => absurd he (by simp [isEnclosed])⟩
    · simp [hd' c hc] at hd
  · rw [Rules.read_dollar, Rules.read_dollar, Rules.readDollar_tagged _ htag,
      Rules.readDollar_tagged _ (isTag_postgres htag)] at h
    exact absurd rfl h
  · rcases Rules.postgres.read_dollar_cases cs with ⟨⟨c, hc, hd'⟩, -⟩ | ⟨tag, rest, -, -, hread⟩ |
      ⟨-, -, hread⟩
    · simp [hd c hc] at hd'
    · rw [hread, hs]
      exact ⟨isEnclosed_read _ rest, fun he => absurd he (by simp [isEnclosed])⟩
    · exact absurd (hread.trans hs.symm) h

/-! ## Whole texts -/

theorem boundariesFrom_cons (offset : Nat) (p : Piece) (ps : List Piece) :
    boundariesFrom offset (p :: ps) =
      (if isEnclosed p.token then [(offset + Scan.byteSize p.blanks,
        offset + Scan.byteSize p.blanks + Scan.byteSize p.token.text)] else []) ++
      boundariesFrom (offset + Scan.byteSize p.blanks + Scan.byteSize p.token.text) ps := by
  simp only [boundariesFrom, Scan.spans, List.zip_cons_cons, List.filter_cons]
  split <;> simp

theorem le_of_mem_boundariesFrom {offset start stop : Nat} {ps : List Piece}
    (h : (start, stop) ∈ boundariesFrom offset ps) : offset ≤ start := by
  induction ps generalizing offset with
  | nil => simp [boundariesFrom] at h
  | cons p ps ih =>
    rw [boundariesFrom_cons, List.mem_append] at h
    rcases h with h | h
    · split at h
      · simp only [List.mem_singleton, Prod.mk.injEq] at h
        omega
      · simp at h
    · have := ih h
      omega

theorem byteSize_pos {cs : List Char} (h : cs ≠ []) : 0 < Scan.byteSize cs := by
  obtain ⟨c, cs, rfl⟩ := List.exists_cons_of_ne_nil h
  have := Char.utf8Size_pos c
  simp only [Scan.byteSize, List.foldr_cons]
  omega

/-- Two beginnings of one text are equal when they have the same size. -/
theorem eq_of_byteSize_eq {as bs cs ds : List Char} (h : as ++ cs = bs ++ ds)
    (hsize : Scan.byteSize as = Scan.byteSize bs) : as = bs := by
  induction as generalizing bs with
  | nil =>
    by_contra hne
    have := byteSize_pos (show bs ≠ [] by simpa [eq_comm] using hne)
    simp only [Scan.byteSize, List.foldr_nil] at hsize this
    omega
  | cons a as ih =>
    cases bs with
    | nil =>
      have := byteSize_pos (show a :: as ≠ [] by simp)
      simp only [Scan.byteSize, List.foldr_nil] at hsize this
      omega
    | cons b bs =>
      simp only [List.cons_append, List.cons.injEq] at h
      obtain ⟨rfl, h⟩ := h
      simp only [Scan.byteSize, List.foldr_cons] at hsize
      rw [ih h (by simp only [Scan.byteSize]; omega)]

theorem conforms_cons {p : Piece} {ps : List Piece} :
    Conforms (p :: ps) ↔ Agrees p.token ps ∧ Conforms ps :=
  Iff.rfl

/-- The scan of a text that conforms is the one of PostgreSQL. -/
theorem scan_eq_of_conforms {cs : List Char} (h : Conforms (Scan.ofChars cs).pieces) :
    Scan.ofChars cs = Rules.postgres.scan cs := by
  rw [← scanned_scan] at h ⊢
  fun_induction Rules.scan .scanned cs with
  | case1 cs hnil => exact (Rules.scan_blanks _ (List.dropWhile_eq_nil_iff.1 hnil)).symm
  | case2 cs c rest hd s ih =>
    obtain ⟨hagrees, hrest⟩ := conforms_cons.1 h
    have hread := (postgres_read_eq_iff (isSpace_of_dropWhile hd) rest).2 hagrees
    rw [Rules.scan_of_dropWhile _ hd, hread, ← ih hrest]

/-- The first token that does not agree moves a boundary. -/
theorem conforms_of_boundaries {cs : List Char} {offset : Nat}
    (h : boundariesFrom offset (Scan.ofChars cs).pieces =
      boundariesFrom offset (Rules.postgres.scan cs).pieces) :
    Conforms (Scan.ofChars cs).pieces := by
  rw [← scanned_scan] at h ⊢
  induction cs using Rules.scan.induct .scanned generalizing offset with
  | case1 cs hnil =>
    rw [Rules.scan_blanks _ (List.dropWhile_eq_nil_iff.1 hnil)]
    trivial
  | case2 cs c rest hd ih =>
    have hs := isSpace_of_dropWhile hd
    simp only [Rules.scan_of_dropWhile _ hd, boundariesFrom_cons] at h ⊢
    by_cases heq : Rules.postgres.read c rest = Rules.scanned.read c rest
    · rw [heq] at h
      exact conforms_cons.2 ⟨(postgres_read_eq_iff hs rest).1 heq, ih (List.append_cancel_left h)⟩
    -- the readers part here, so one of them has a boundary that the other has not
    exfalso
    obtain ⟨henclosed, htext⟩ := isEnclosed_of_read_ne heq
    have hpos := byteSize_pos (lexeme_read .scanned hs rest).text_ne_nil
    rw [henclosed] at h
    split at h
    · rename_i he
      simp only [if_true, List.cons_append, List.cons.injEq, Prod.mk.injEq] at h
      refine htext he (eq_of_byteSize_eq ((Rules.scanned.read_append c rest).trans
        (Rules.postgres.read_append c rest).symm) ?_)
      omega
    · have hmem : (offset + Scan.byteSize (cs.takeWhile isSpace),
          offset + Scan.byteSize (cs.takeWhile isSpace) +
            Scan.byteSize (Rules.postgres.read c rest).1.text) ∈
          boundariesFrom (offset + Scan.byteSize (cs.takeWhile isSpace) +
            Scan.byteSize (Rules.scanned.read c rest).1.text)
              (Rules.scanned.scan (Rules.scanned.read c rest).2).pieces := by
        rw [List.nil_append] at h
        rw [h]
        simp
      have := le_of_mem_boundariesFrom hmem
      omega

/-- The scan puts the boundaries where PostgreSQL puts them exactly for texts that conform, and there
it finds the same tokens. -/
theorem boundaries_eq_iff_conforms (cs : List Char) :
    ∃ s, (∀ s', Lexed .postgres cs s' ↔ s' = s) ∧
      (boundaries (Scan.ofChars cs) = boundaries s ↔ Conforms (Scan.ofChars cs).pieces) ∧
      (Conforms (Scan.ofChars cs).pieces → Scan.ofChars cs = s) := by
  refine ⟨Rules.postgres.scan cs, fun s' => lexed_iff_scan, ⟨conforms_of_boundaries, ?_⟩,
    scan_eq_of_conforms⟩
  intro h
  rw [scan_eq_of_conforms h]

/-- What stands behind a carriage return is code, and so is what stands between tags with a letter
outside ASCII, but the scan puts the first into a comment and the second outside of a literal. -/
theorem boundaries_moved :
    (∃ s, Lexed .postgres "-- a\rSELECT 1".toList s ∧
      boundaries (Scan.ofString "-- a\rSELECT 1") ≠ boundaries s) ∧
    ∃ s, Lexed .postgres "$é$ ; $é$".toList s ∧
      boundaries (Scan.ofString "$é$ ; $é$") ≠ boundaries s := by
  refine ⟨⟨_, lexed_scan _ _, fun h => ?_⟩, _, lexed_scan _ _, fun h => ?_⟩
  · have hc := conforms_of_boundaries h
    rw [show "-- a\rSELECT 1".toList = '-' :: "- a\rSELECT 1".toList by decide, ofChars_cons rfl] at hc
    exact absurd hc.1.1 (by decide)
  · have hc := conforms_of_boundaries h
    rw [show "$é$ ; $é$".toList = '$' :: "é$ ; $é$".toList by decide, ofChars_cons rfl] at hc
    refine hc.1.2 (by decide) ?_
    rw [show (Token.read '$' "é$ ; $é$".toList).2 = 'é' :: "$ ; $é$".toList by decide,
      ofChars_cons (by decide)]
    exact ⟨_, rfl, rfl, by decide, by decide⟩

end SpatialQuery.Lexical
