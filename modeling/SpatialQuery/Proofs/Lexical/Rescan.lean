import SpatialQuery.Proofs.Lexical.Scanning

/-!
Tokens before another text. A token of a text is one of a second text too when the two go on alike, or
when the second one goes on with a character before which the token ends (`Lexeme.of_common`). So texts
that are put together from tokens can be scanned without reading them again.
-/

namespace SpatialQuery.Lexical

open Token

/-- Characters of numerals. -/
def continuesNumeral (c : Char) : Bool :=
  isFigure c || c == '.' || c == 'e' || c == 'E' || c == '+' || c == '-'

/-- The token ends where this character follows. -/
def EndsBefore (t : Token) (c : Char) : Prop :=
  match t.kind with
  | .word => isWordPart c = false ∧ (c = '\'' → t.text ≠ ['E'] ∧ t.text ≠ ['e'])
  | .quotedIdentifier => c ≠ '"'
  | .stringLiteral => t.text.getLast? = some '\'' → c ≠ '\''
  | .number => continuesNumeral c = false
  | .placeholder _ => c.isDigit = false
  | .lineComment => c = '\n'
  | .blockComment => True
  | .punct d => (d = '-' → c ≠ '-') ∧ (d = '/' → c ≠ '*') ∧ (d = '.' → c.isDigit = false) ∧
      (d = '$' → c.isDigit = false ∧ Rules.scanned.isTagPart c = false ∧ c ≠ '$')
  | .unclosed _ => False

/-- No numeral and no tag that begins in front of `cs` goes on into `es`. If `ds` begins with a dollar
sign, a tag would have ended there. -/
def Separated (cs ds es : List Char) : Prop :=
  ∀ c ∈ es.head?, (continuesNumeral c = true → ∃ d ∈ cs, continuesNumeral d = false) ∧
    (Rules.scanned.isTagPart c = true ∨ c = '$' →
      ds.head? = some '$' ∨ ∃ d ∈ cs, Rules.scanned.isTagPart d = false)

theorem Numeral.continues {cs : List Char} (h : Numeral cs) : ∀ c ∈ cs, continuesNumeral c = true := by
  have hf : ∀ {ds : List Char}, (∀ c ∈ ds, isFigure c = true) → ∀ c ∈ ds, continuesNumeral c = true := by
    intro ds hd c hc
    simp [continuesNumeral, hd c hc]
  obtain ⟨m, x, hm, hx, rfl⟩ := h
  intro c hc
  rcases List.mem_append.1 hc with hc | hc
  · cases hm with
    | whole hd => exact hf hd.2 c hc
    | fraction hd hds =>
      rcases List.mem_append.1 hc with hc | hc
      · exact hf hd.2 c hc
      · rcases List.mem_cons.1 hc with rfl | hc
        · rfl
        · exact hf hds c hc
    | point hd =>
      rcases List.mem_cons.1 hc with rfl | hc
      · rfl
      · exact hf hd.2 c hc
  · cases hx with
    | none => simp at hc
    | mark he hs hd =>
      rcases List.mem_cons.1 hc with rfl | hc
      · rcases he with rfl | rfl <;> rfl
      rcases List.mem_append.1 hc with hc | hc
      · rcases hs with rfl | rfl | rfl
        · simp at hc
        · rw [List.mem_singleton.1 hc]; rfl
        · rw [List.mem_singleton.1 hc]; rfl
      · exact hf hd.2 c hc

/-- What begins like `cs ++ es` and goes beyond `cs` holds all of `cs` and the next character. -/
theorem prefix_append_cases {ps cs es : List Char} (h : ps <+: cs ++ es) :
    ps <+: cs ∨ ∃ c ∈ es.head?, ∃ qs, ps = cs ++ c :: qs := by
  rcases List.prefix_or_prefix_of_prefix h (List.prefix_append cs es) with hp | ⟨qs, rfl⟩
  · exact .inl hp
  rw [List.prefix_append_right_inj] at h
  cases qs with
  | nil => exact .inl (by simp)
  | cons c qs =>
    obtain ⟨rest, rfl⟩ := h
    exact .inr ⟨c, by simp, qs, rfl⟩

theorem head?_append_ne {cs ds es : List Char} {q : Char} (h : (cs ++ ds).head? ≠ some q)
    (he : cs = [] → ∀ c ∈ es.head?, c ≠ q) : (cs ++ es).head? ≠ some q := by
  cases cs with
  | nil =>
    intro hq
    exact he rfl q hq rfl
  | cons c cs => exact h

theorem head?_append_eq_false {p : Char → Bool} {cs ds es : List Char}
    (h : ∀ c ∈ (cs ++ ds).head?, p c = false) (he : cs = [] → ∀ c ∈ es.head?, p c = false) :
    ∀ c ∈ (cs ++ es).head?, p c = false := by
  cases cs with
  | nil => exact he rfl
  | cons c cs => exact h

theorem Opening.closes_of_common {o : Opening} {body cs ds es : List Char}
    (h : o.Closes body (cs ++ ds))
    (hend : cs = [] → ∀ c ∈ es.head?, EndsBefore ⟨o.kind, o.text ++ body⟩ c) :
    o.Closes body (cs ++ es) := by
  have hquote : ∀ {e b}, ClosesQuote '\'' e body (cs ++ ds) → o.kind = .stringLiteral →
      ClosesQuote '\'' b body (cs ++ es) ∨ ClosesQuote '\'' e body (cs ++ es) := by
    rintro e b ⟨inside, hq, rfl, hr⟩ hk
    refine .inr ⟨inside, hq, rfl, head?_append_ne hr fun hcs c hc => ?_⟩
    have he := hend hcs c hc
    simp only [EndsBefore, hk] at he
    exact he (by simp [← List.append_assoc])
  cases o with
  | string => exact (hquote h rfl).elim id id
  | escapeString e => exact (hquote h rfl).elim id id
  | identifier =>
    obtain ⟨inside, hq, rfl, hr⟩ := h
    exact ⟨inside, hq, rfl, head?_append_ne hr hend⟩
  | comment => exact h
  | tagged tag => exact h

theorem longest_of_common {num cs ds es : List Char}
    (hl : ∀ ps, Numeral ps → ps <+: num ++ (cs ++ ds) → ps.length ≤ num.length)
    (hend : cs = [] → ∀ c ∈ es.head?, continuesNumeral c = false)
    (hsep : cs ≠ [] → Separated cs ds es) :
    ∀ ps, Numeral ps → ps <+: num ++ (cs ++ es) → ps.length ≤ num.length := by
  intro ps hps hp
  rw [← List.append_assoc] at hp
  rcases prefix_append_cases hp with hp | ⟨c, hc, qs, rfl⟩
  · refine hl ps hps ?_
    rw [← List.append_assoc]
    exact List.prefix_append_of_prefix hp
  · exfalso
    have hcont := hps.continues c (by simp)
    by_cases hne : cs = []
    · rw [hend hne c hc] at hcont
      cases hcont
    · obtain ⟨d, hd, hstop⟩ := (hsep hne c hc).1 hcont
      rw [hps.continues d (by simp [hd])] at hstop
      cases hstop

/-- A tag that ends behind the common beginning was one before. -/
theorem exists_tag_of_common {tag cs ds es : List Char} (ht : Rules.scanned.IsTag tag)
    (hp : tag ++ ['$'] <+: cs ++ es) (hne : cs ≠ []) (hsep : Separated cs ds es) :
    ∃ tag, Rules.scanned.IsTag tag ∧ tag ++ ['$'] <+: cs ++ ds := by
  rcases prefix_append_cases hp with hp | ⟨c, hc, qs, he⟩
  · exact ⟨tag, ht, List.prefix_append_of_prefix hp⟩
  -- the tag goes on behind the common part, which consists of its characters
  have hcs : cs <+: tag := by
    have hp : cs <+: tag ++ ['$'] := ⟨c :: qs, he.symm⟩
    rcases List.prefix_concat_iff.1 hp with h | h
    · rw [h, List.self_eq_append_right] at he
      cases he
    · exact h
  have hpart : ∀ d ∈ cs, Rules.scanned.isTagPart d = true := fun d hd => ht.2 d (hcs.mem hd)
  have hmem : c ∈ tag ++ ['$'] := by
    rw [he]
    simp
  have hnext : Rules.scanned.isTagPart c = true ∨ c = '$' := by
    rcases List.mem_append.1 hmem with hmem | hmem
    · exact .inl (ht.2 c hmem)
    · exact .inr (List.mem_singleton.1 hmem)
  rcases (hsep c hc).2 hnext with hdollar | ⟨d, hd, hstop⟩
  · refine ⟨cs, ⟨fun d hd => ?_, hpart⟩, ?_⟩
    · obtain ⟨more, rfl⟩ := hcs
      apply ht.1
      cases cs with
      | nil => simp at hd
      | cons e cs => exact hd
    · rw [List.prefix_append_right_inj, eq_cons_of_head? (show (ds.head? == some '$') = true by simp [hdollar])]
      simp
  · rw [hpart d hd] at hstop
    cases hstop

theorem head?_of_tag {tag cs : List Char} (ht : Rules.scanned.IsTag tag) (hp : tag ++ ['$'] <+: cs) :
    ∃ c ∈ cs.head?, Rules.scanned.isTagPart c = true ∨ c = '$' := by
  obtain ⟨rest, rfl⟩ := hp
  cases tag with
  | nil => exact ⟨'$', by simp, .inr rfl⟩
  | cons c tag => exact ⟨c, by simp, .inl (ht.2 c (by simp))⟩

theorem startsNumeral_eq_false_iff {c : Char} {cs : List Char} :
    startsNumeral c cs = false ↔ ∀ ds, Numeral ds → ¬ds <+: c :: cs := by
  refine ⟨no_numeral_begins, fun h => ?_⟩
  rw [Bool.eq_false_iff]
  intro hs
  exact h _ (numeral_splitNumber hs) ⟨_, splitNumber_append false false false (c :: cs)⟩

theorem startsNumeral_of_common {c : Char} {cs ds es : List Char}
    (h : startsNumeral c (cs ++ ds) = false)
    (hend : cs = [] → ∀ d ∈ es.head?, c = '.' → d.isDigit = false) :
    startsNumeral c (cs ++ es) = false := by
  cases cs with
  | cons d cs => exact h
  | nil =>
    simp only [startsNumeral, Bool.or_eq_false_iff] at h ⊢
    refine ⟨h.1, ?_⟩
    rw [Bool.and_eq_false_imp, beq_iff_eq]
    intro hc
    cases es with
    | nil => rfl
    | cons d es => simpa using hend rfl d (by simp) hc

theorem not_begins_word_of_common {c : Char} {ws cs ds es : List Char} (hw : isWordStart c = true)
    (hb : ¬Begins .scanned (c :: ws ++ (cs ++ ds)))
    (hend : cs = [] → ∀ d ∈ es.head?, d = '\'' → c :: ws ≠ ['E'] ∧ c :: ws ≠ ['e']) :
    ¬Begins .scanned (c :: ws ++ (cs ++ es)) := by
  rw [List.cons_append, begins_word_iff hw] at hb ⊢
  rintro ⟨hE, hq⟩
  cases ws with
  | cons d ws => exact hb ⟨hE, hq⟩
  | nil =>
    have hne : (cs ++ ds).head? ≠ some '\'' := fun hq' => hb ⟨hE, hq'⟩
    refine head?_append_ne hne (fun hcs d hd he => ?_) hq
    obtain ⟨h1, h2⟩ := hend hcs d hd he
    rcases hE with rfl | rfl
    · exact h1 rfl
    · exact h2 rfl

/-- Only a tag looks beyond the next character. -/
theorem not_begins_punct_of_common {c : Char} {cs ds es : List Char} (hw : isWordStart c = false)
    (hb : ¬Begins .scanned (c :: (cs ++ ds))) (hend : cs = [] → ∀ d ∈ es.head?, EndsBefore ⟨.punct c, [c]⟩ d)
    (hsep : cs ≠ [] → c = '$' → Separated cs ds es) : ¬Begins .scanned (c :: (cs ++ es)) := by
  rw [begins_cons_iff] at hb ⊢
  simp only [not_or] at hb ⊢
  obtain ⟨h1, h2, h3, h4, -, h6⟩ := hb
  refine ⟨?_, ?_, h3, h4, ?_, ?_⟩
  · rintro ⟨rfl, hq⟩
    exact head?_append_ne (fun hq' => h1 ⟨rfl, hq'⟩) (fun hcs d hd => (hend hcs d hd).1 rfl) hq
  · rintro ⟨rfl, hq⟩
    exact head?_append_ne (fun hq' => h2 ⟨rfl, hq'⟩) (fun hcs d hd => (hend hcs d hd).2.1 rfl) hq
  · rintro ⟨rfl | rfl, -⟩ <;> exact absurd hw (by decide)
  · rintro ⟨rfl, tag, ht, hp⟩
    by_cases hcs : cs = []
    · obtain ⟨q, hq, hdollar⟩ := head?_of_tag ht hp
      obtain ⟨-, hpart, hne⟩ := (hend hcs q (by simpa [hcs] using hq)).2.2.2 rfl
      rcases hdollar with hdollar | hdollar
      · rw [hpart] at hdollar
        cases hdollar
      · exact hne hdollar
    · exact h6 ⟨rfl, exists_tag_of_common ht hp hcs (hsep hcs rfl)⟩

/-- A token ends where it did when the text goes on as before, or with a character before which the
token ends. Only numerals and dollar signs look beyond the next character. -/
theorem Lexeme.of_common {t : Token} {cs ds es : List Char} (h : Lexeme .scanned t (cs ++ ds))
    (hclosed : ∀ what, t.kind ≠ .unclosed what)
    (hend : cs = [] → ∀ c ∈ es.head?, EndsBefore t c)
    (hsep : cs ≠ [] → t.kind = .number ∨ t.kind = .punct '$' → Separated cs ds es) :
    Lexeme .scanned t (cs ++ es) := by
  generalize hrest : cs ++ ds = rest at h
  cases h with
  | closed ho hc =>
    subst hrest
    exact .closed ho (Opening.closes_of_common hc hend)
  | unclosed => exact absurd rfl (hclosed _)
  | @lineComment body _ hb hr =>
    subst hrest
    refine .lineComment hb fun c hc => ?_
    cases cs with
    | nil =>
      rw [show c = '\n' from hend rfl c hc]
      rfl
    | cons d cs => exact hr c hc
  | placeholder hne hd hr =>
    subst hrest
    exact .placeholder hne hd (head?_append_eq_false hr hend)
  | number hn hl =>
    subst hrest
    exact .number hn (longest_of_common hl hend fun hcs => hsep hcs (.inl rfl))
  | word hw hd hr hb =>
    subst hrest
    exact .word hw hd (head?_append_eq_false hr fun hcs d hd => (hend hcs d hd).1)
      (not_begins_word_of_common hw hb fun hcs d hd => (hend hcs d hd).2)
  | @punct c _ hs hw hn hd hb =>
    subst hrest
    rw [← startsNumeral_eq_false_iff] at hn
    refine .punct hs hw ?_ ?_ (not_begins_punct_of_common hw hb hend fun hcs hc => hsep hcs (.inr (hc ▸ rfl)))
    · rw [← startsNumeral_eq_false_iff]
      exact startsNumeral_of_common hn fun hcs d hd => (hend hcs d hd).2.2.1
    · intro hc
      exact head?_append_eq_false (hd hc) fun hcs e he => ((hend hcs e he).2.2.2 hc).1

/-! ## Texts put together from tokens -/

/-- Scanning the text of these pieces finds them again. -/
def Readable (s : Scan) : Prop :=
  Lexed .scanned s.text s

@[simp] theorem text_nil (trailing : List Char) : Scan.text ⟨[], trailing⟩ = trailing := rfl

@[simp] theorem text_cons (p : Piece) (ps : List Piece) (trailing : List Char) :
    Scan.text ⟨p :: ps, trailing⟩ = p.blanks ++ (p.token.text ++ Scan.text ⟨ps, trailing⟩) := by
  simp [Scan.text, Piece.text]

theorem readable_nil {trailing : List Char} :
    Readable ⟨[], trailing⟩ ↔ ∀ c ∈ trailing, isSpace c = true := by
  constructor
  · intro h
    cases h with
    | nil hb => exact hb
  · exact .nil

theorem readable_cons {p : Piece} {ps : List Piece} {trailing : List Char} :
    Readable ⟨p :: ps, trailing⟩ ↔ (∀ c ∈ p.blanks, isSpace c = true) ∧
      Lexeme .scanned p.token (Scan.text ⟨ps, trailing⟩) ∧ Readable ⟨ps, trailing⟩ := by
  constructor
  · intro h
    unfold Readable at h
    rw [text_cons] at h
    generalize htext : p.blanks ++ (p.token.text ++ Scan.text ⟨ps, trailing⟩) = cs at h
    obtain ⟨blanks, t⟩ := p
    cases h with
    | @cons _ rest _ s hb ht hrest =>
      rw [List.append_cancel_left_eq, List.append_cancel_left_eq] at htext
      subst htext
      exact ⟨hb, ht, hrest⟩
  · rintro ⟨hb, ht, hrest⟩
    have h := Lexed.cons hb ht hrest
    rwa [← text_cons] at h

theorem ofChars_text {s : Scan} (h : Readable s) : Scan.ofChars s.text = s :=
  (lexed_scanned_iff.1 h).symm

theorem readable_ofChars (cs : List Char) : Readable (Scan.ofChars cs) := by
  unfold Readable
  rw [Scan.text_ofChars, lexed_scanned_iff]

theorem lexeme_of_readable {s : Scan} (hs : Readable s) {p : Piece} (hp : p ∈ s.pieces) :
    ∃ rest, Lexeme .scanned p.token rest := by
  obtain ⟨ps, trailing⟩ := s
  induction ps with
  | nil => simp at hp
  | cons q ps ih =>
    obtain ⟨-, hl, hrest⟩ := readable_cons.1 hs
    rcases List.mem_cons.1 hp with rfl | hp
    · exact ⟨_, hl⟩
    · exact ih hrest hp

theorem text_append (ps qs : List Piece) (trailing : List Char) :
    Scan.text ⟨ps ++ qs, trailing⟩ = ps.flatMap Piece.text ++ Scan.text ⟨qs, trailing⟩ := by
  simp [Scan.text]

theorem readable_of_append {ps qs : List Piece} {trailing : List Char}
    (h : Readable ⟨ps ++ qs, trailing⟩) : Readable ⟨qs, trailing⟩ := by
  induction ps with
  | nil => exact h
  | cons p ps ih =>
    rw [List.cons_append] at h
    exact ih (readable_cons.1 h).2.2

/-- Pieces are read in front of another text too if the last one ends before its first character, and
no numeral or dollar sign further in front looks that far. -/
theorem readable_append {ps qs : List Piece} {trailing : List Char} {s : Scan}
    (h : Readable ⟨ps ++ qs, trailing⟩) (hs : Readable s)
    (hclosed : ∀ p ∈ ps, ∀ what, p.token.kind ≠ .unclosed what)
    (hend : ∀ p ∈ ps.getLast?, ∀ c ∈ s.text.head?, EndsBefore p.token c)
    (hsep : ∀ as p bs, ps = as ++ p :: bs → p.token.kind = .number ∨ p.token.kind = .punct '$' →
      bs ≠ [] → Separated (bs.flatMap Piece.text) (Scan.text ⟨qs, trailing⟩) s.text) :
    Readable ⟨ps ++ s.pieces, s.trailing⟩ := by
  induction ps with
  | nil => exact hs
  | cons p ps ih =>
    rw [List.cons_append] at h ⊢
    obtain ⟨hb, hl, hrest⟩ := readable_cons.1 h
    have hne : ps ≠ [] → ps.flatMap Piece.text ≠ [] := by
      intro hps hnil
      obtain ⟨q, qs', rfl⟩ := List.exists_cons_of_ne_nil hps
      obtain ⟨c, cs, htext, -⟩ := (readable_cons.1 hrest).2.1.exists_cons
      simp [Piece.text, htext] at hnil
    -- only the last token stands directly in front of the other text
    refine readable_cons.2 ⟨hb, ?_, ih hrest (fun q hq => hclosed q (by simp [hq])) ?_ ?_⟩
    · rw [text_append] at hl ⊢
      refine hl.of_common (hclosed p (by simp)) ?_ ?_
      · intro hnil
        obtain rfl : ps = [] := by
          by_contra hps
          exact hne hps hnil
        exact hend p rfl
      · intro hcs hk
        refine hsep [] p ps rfl hk ?_
        rintro rfl
        exact hcs rfl
    · intro q hq
      refine hend q ?_
      rw [Option.mem_def] at hq ⊢
      rw [List.getLast?_cons, hq]
      rfl
    · intro as q bs he
      exact hsep (p :: as) q bs (by rw [he, List.cons_append])

/-- Blanks and closing parentheses end every token but a line comment. -/
def isSeparator (c : Char) : Bool :=
  isSpace c || c == ')'

theorem endsBefore_separator {t : Token} (hclosed : ∀ what, t.kind ≠ .unclosed what)
    (hcomment : t.kind ≠ .lineComment) {c : Char} (hc : isSeparator c = true) : EndsBefore t c := by
  have hstop : isWordPart c = false ∧ c ≠ '\'' ∧ c ≠ '"' ∧ continuesNumeral c = false ∧ c ≠ '-' ∧
      c ≠ '*' ∧ c.isDigit = false ∧ Rules.scanned.isTagPart c = false ∧ c ≠ '$' := by
    simp only [isSeparator, isSpace, Bool.or_eq_true, beq_iff_eq] at hc
    rcases hc with ((((rfl | rfl) | rfl) | rfl) | rfl) | rfl <;> decide
  obtain ⟨hword, hquote, hname, hnum, hminus, hstar, hdigit, htag, hdollar⟩ := hstop
  unfold EndsBefore
  split
  · exact ⟨hword, fun h => absurd h hquote⟩
  · exact hname
  · exact fun _ => hquote
  · exact hnum
  · exact hdigit
  · rename_i hk
    exact absurd hk hcomment
  · trivial
  · exact ⟨fun _ => hminus, fun _ => hstar, fun _ => hdigit, fun _ => ⟨hdigit, htag, hdollar⟩⟩
  · rename_i hk
    exact hclosed _ hk

theorem separated_separator {cs ds es : List Char} (h : ∀ c ∈ es.head?, isSeparator c = true) :
    Separated cs ds es := by
  intro c hc
  have hstop : continuesNumeral c = false ∧ Rules.scanned.isTagPart c = false ∧ c ≠ '$' := by
    have hs := h c hc
    simp only [isSeparator, isSpace, Bool.or_eq_true, beq_iff_eq] at hs
    rcases hs with ((((rfl | rfl) | rfl) | rfl) | rfl) | rfl <;> decide
  obtain ⟨hnum, htag, hdollar⟩ := hstop
  refine ⟨fun hcont => ?_, fun hpart => ?_⟩
  · rw [hnum] at hcont
    cases hcont
  · rw [htag] at hpart
    exact absurd (hpart.resolve_left (by simp)) hdollar

/-- Blanks in front of a separator begin with one. -/
theorem isSeparator_head? {blanks rest : List Char} {c : Char} (hblanks : ∀ d ∈ blanks, isSpace d = true)
    (hc : isSeparator c = true) : ∀ d ∈ (blanks ++ c :: rest).head?, isSeparator d = true := by
  intro d hd
  cases blanks with
  | nil =>
    obtain rfl : c = d := Option.some.inj hd
    exact hc
  | cons b bs =>
    obtain rfl : b = d := Option.some.inj hd
    rw [isSeparator, hblanks b List.mem_cons_self, Bool.true_or]

/-- Before a blank or a closing parenthesis, and at the end of a text, tokens are read as they were. -/
theorem readable_append_separator {ps qs : List Piece} {trailing : List Char} {s : Scan}
    (h : Readable ⟨ps ++ qs, trailing⟩) (hs : Readable s)
    (hclosed : ∀ p ∈ ps, ∀ what, p.token.kind ≠ .unclosed what)
    (hcomment : ∀ p ∈ ps, p.token.kind ≠ .lineComment)
    (hc : ∀ c ∈ s.text.head?, isSeparator c = true) : Readable ⟨ps ++ s.pieces, s.trailing⟩ := by
  refine readable_append h hs hclosed ?_ fun _ _ _ _ _ _ => separated_separator hc
  intro p hp c hmem
  have hp := List.mem_of_getLast? hp
  exact endsBefore_separator (hclosed p hp) (hcomment p hp) (hc c hmem)

/-- Nothing but blanks stands between the tokens. -/
def Blank (s : Scan) : Prop :=
  (∀ p ∈ s.pieces, ∀ c ∈ p.blanks, isSpace c = true) ∧ ∀ c ∈ s.trailing, isSpace c = true

theorem blank_of_readable {s : Scan} (h : Readable s) : Blank s := by
  obtain ⟨ps, trailing⟩ := s
  induction ps with
  | nil => exact ⟨by simp, readable_nil.1 h⟩
  | cons p ps ih =>
    obtain ⟨hb, -, hrest⟩ := readable_cons.1 h
    obtain ⟨hps, htrail⟩ := ih hrest
    refine ⟨?_, htrail⟩
    simpa using ⟨hb, hps⟩

/-- A character that is no blank stands in the tokens only. -/
theorem count_text {s : Scan} (h : Blank s) {c : Char} (hc : isSpace c = false) :
    s.text.count c = (s.tokens.flatMap Token.text).count c := by
  have hzero : ∀ {cs : List Char}, (∀ d ∈ cs, isSpace d = true) → cs.count c = 0 := by
    intro cs hcs
    refine List.count_eq_zero.2 fun hmem => ?_
    rw [hcs c hmem] at hc
    cases hc
  obtain ⟨ps, trailing⟩ := s
  obtain ⟨hps, htrail⟩ := h
  induction ps with
  | nil => simp [Scan.tokens, hzero htrail]
  | cons p ps ih =>
    simp only [List.mem_cons, forall_eq_or_imp] at hps
    have htail := ih hps.2 htrail
    simp only [Scan.tokens, List.map_cons, List.flatMap_cons, text_cons, List.count_append] at htail ⊢
    rw [hzero hps.1, htail]
    omega

/-- A text that scans to the tokens it was put together from scans to the same pieces. -/
theorem readable_of_tokens {s : Scan} (hb : Blank s)
    (hsolid : ∀ p ∈ s.pieces, ∃ c cs, p.token.text = c :: cs ∧ isSpace c = false)
    (h : (Scan.ofChars s.text).tokens = s.tokens) : Readable s := by
  obtain ⟨ps, trailing⟩ := s
  obtain ⟨hblank, htrail⟩ := hb
  induction ps with
  | nil => exact readable_nil.2 htrail
  | cons p ps ih =>
    simp only [List.mem_cons, forall_eq_or_imp] at hblank hsolid
    obtain ⟨⟨c, cs, htext, hc⟩, hsolid⟩ := hsolid
    have hstop : ∀ d ∈ (p.token.text ++ Scan.text ⟨ps, trailing⟩).head?, isSpace d = false := by
      rw [htext]
      simpa using hc
    have hdrop : (Scan.text ⟨p :: ps, trailing⟩).dropWhile isSpace =
        c :: (cs ++ Scan.text ⟨ps, trailing⟩) := by
      rw [text_cons, dropWhile_exact hblank.1 hstop, htext, List.cons_append]
    rw [← scanned_scan, Rules.scan_of_dropWhile _ hdrop, scanned_scan] at h
    simp only [Scan.tokens, List.map_cons, List.cons.injEq] at h
    have happ := Rules.scanned.read_append c (cs ++ Scan.text ⟨ps, trailing⟩)
    have hl := lexeme_read .scanned hc (cs ++ Scan.text ⟨ps, trailing⟩)
    rw [h.1, htext, List.cons_append, List.cons.injEq] at happ
    rw [h.1, List.append_cancel_left happ.2] at hl
    refine readable_cons.2 ⟨hblank.1, hl, ih hsolid ?_ hblank.2 htrail⟩
    rw [← List.append_cancel_left happ.2]
    exact h.2

end SpatialQuery.Lexical
