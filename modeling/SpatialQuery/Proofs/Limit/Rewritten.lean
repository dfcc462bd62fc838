import SpatialQuery.Proofs.Limit.Statement

/-!
The tokens of rewritten statements: a limit behind the statement, the statement as a subquery, and the
statement with another count.
-/

namespace SpatialQuery.RowLimit

open Token Lexical Validation

/-! ## New pieces -/

def limitWord : Token :=
  ⟨.word, "LIMIT".toList⟩

def countToken (n : Nat) : Token :=
  ⟨.number, Text.ofNat n⟩

/-- The pieces of a limit that is written behind a statement. -/
def limitPieces (n : Nat) : List Piece :=
  [⟨[' '], limitWord⟩, ⟨[' '], countToken n⟩]

/-- What stands in front of a statement that becomes a subquery. -/
def openingPieces : List Piece :=
  [⟨[], ⟨.word, "SELECT".toList⟩⟩, ⟨[' '], ⟨.punct '*', ['*']⟩⟩, ⟨[' '], ⟨.word, "FROM".toList⟩⟩,
    ⟨[' '], ⟨.punct '(', ['(']⟩⟩]

/-- What stands behind it: the blanks that end it, a name for the subquery and a limit. -/
def subqueryPieces (blanks : List Char) (label : String) (n : Nat) : List Piece :=
  ⟨blanks, ⟨.punct ')', [')']⟩⟩ :: ⟨[' '], ⟨.word, "AS".toList⟩⟩ ::
    ⟨[' '], ⟨.quotedIdentifier, '"' :: label.toList ++ ['"']⟩⟩ :: limitPieces n

def closingPieces (n : Nat) : List Piece :=
  ⟨[], ⟨.punct ')', [')']⟩⟩ :: ⟨[' '], ⟨.word, "AS".toList⟩⟩ ::
    ⟨[' '], ⟨.quotedIdentifier, '"' :: "geoview_limited".toList ++ ['"']⟩⟩ :: limitPieces n

theorem readable_blank_cons {t : Token} {s : Scan} (h : Lexeme .scanned t s.text) (hs : Readable s) :
    Readable ⟨⟨[' '], t⟩ :: s.pieces, s.trailing⟩ :=
  readable_cons.2 ⟨List.all_eq_true.1 rfl, h, hs⟩

theorem readable_limit (n : Nat) : Readable ⟨limitPieces n, []⟩ := by
  have hnil : Readable ⟨[], []⟩ := readable_nil.2 (by simp)
  refine readable_blank_cons (s := ⟨_, []⟩) (lexeme_word rfl (List.all_eq_true.1 rfl) ?_)
    (readable_blank_cons (s := ⟨[], []⟩) (lexeme_number (numeral_ofNat n) (by simp)) hnil)
  intro c hc
  obtain rfl : c = ' ' := Option.some.inj hc.symm
  rfl

theorem readable_subquery {blanks : List Char} (hblanks : ∀ c ∈ blanks, isSpace c = true) {label : String}
    (hlabel : '"' ∉ label.toList) (n : Nat) : Readable ⟨subqueryPieces blanks label n, []⟩ := by
  have hblank : ∀ c ∈ (Scan.text ⟨limitPieces n, []⟩).head?, c = ' ' := fun c hc =>
    Option.some.inj hc.symm
  refine readable_cons.2 ⟨hblanks, lexeme_mark (.inr (.inl rfl)) _, ?_⟩
  refine readable_blank_cons (s := ⟨_, _⟩) (lexeme_word rfl (List.all_eq_true.1 rfl) ?_)
    (readable_blank_cons (s := ⟨_, _⟩) (lexeme_identifier hlabel ?_) (readable_limit n))
  · intro c hc
    obtain rfl : c = ' ' := Option.some.inj hc.symm
    rfl
  · intro hq
    exact absurd (hblank _ hq) (by decide)

theorem readable_opening {s : Scan} (hs : Readable s) :
    Readable ⟨openingPieces ++ s.pieces, s.trailing⟩ := by
  refine readable_cons.2 ⟨by simp, lexeme_word rfl (List.all_eq_true.1 rfl) ?_, ?_⟩
  · intro c hc
    obtain rfl : c = ' ' := Option.some.inj hc.symm
    rfl
  refine readable_blank_cons (s := ⟨_, _⟩) (lexeme_mark (.inr (.inr rfl)) _) ?_
  refine readable_blank_cons (s := ⟨_, _⟩) (lexeme_word rfl (List.all_eq_true.1 rfl) ?_) ?_
  · intro c hc
    obtain rfl : c = ' ' := Option.some.inj hc.symm
    rfl
  exact readable_blank_cons (s := ⟨_, _⟩) (lexeme_mark (.inl rfl) _) hs

/-- A name without quotes is put in quotes as it is. -/
theorem quote_of_not_mem {q : Char} {cs : List Char} (h : q ∉ cs) : Text.quote q cs = q :: cs ++ [q] := by
  have hdouble : Text.double q cs = cs := by
    induction cs with
    | nil => rfl
    | cons c cs ih =>
      rw [List.mem_cons, not_or] at h
      have hc : (c == q) = false := beq_false_of_ne fun hcq => h.1 hcq.symm
      simp [Text.double_cons, hc, ih h.2]
  rw [Text.quote, hdouble]

theorem text_subquery {label : String} (hlabel : '"' ∉ label.toList) (blanks : List Char) (n : Nat) :
    Scan.text ⟨subqueryPieces blanks label n, []⟩ = blanks ++ (") AS ".toList ++
      (Text.quote '"' label.toList ++ (" LIMIT ".toList ++ Text.ofNat n))) := by
  rw [quote_of_not_mem hlabel]
  simp [Scan.text, subqueryPieces, limitPieces, Piece.text, limitWord, countToken]

/-! ## A statement with more around it -/

/-- A text whose tokens end by themselves is read inside of a subquery as it is read alone. -/
theorem scan_subquery {s : Scan} (h : Readable s) (hp : ∀ p ∈ s.pieces, Settled p.token) {label : String}
    (hlabel : '"' ∉ label.toList) (n : Nat) : Scan.ofChars (wrapped label s.text n) =
      ⟨openingPieces ++ (s.pieces ++ subqueryPieces s.trailing label n), []⟩ := by
  have hend : Readable ⟨s.pieces ++ [], s.trailing⟩ := by rwa [List.append_nil]
  have hblanks : ∀ c ∈ s.trailing, isSpace c = true := readable_nil.1 (readable_of_append hend)
  have hclosing := readable_subquery hblanks hlabel n
  have hclose : ∀ c ∈ (Scan.text ⟨subqueryPieces s.trailing label n, []⟩).head?, isSeparator c = true := by
    rw [text_subquery hlabel]
    exact isSeparator_head? hblanks rfl
  have hread : Readable ⟨s.pieces ++ subqueryPieces s.trailing label n, []⟩ :=
    readable_append_separator hend hclosing (fun p hm => (hp p hm).closed) (fun p hm => (hp p hm).not_lineComment)
      hclose
  have htext : wrapped label s.text n =
      Scan.text ⟨openingPieces ++ (s.pieces ++ subqueryPieces s.trailing label n), []⟩ := by
    rw [text_append, text_append, text_subquery hlabel]
    have hopen : openingPieces.flatMap Piece.text = "SELECT * FROM (".toList := rfl
    rw [hopen]
    unfold wrapped
    simp only [Scan.text, List.append_assoc]
  rw [htext]
  exact ofChars_text (readable_opening hread)

section Around

variable {pieces : List Piece} (h : Readable ⟨headed pieces, []⟩)
  (hp : ∀ p ∈ headed pieces, Settled p.token)

include h hp

theorem readable_before {s : Scan} (hs : Readable s) (hc : ∀ c ∈ s.text.head?, isSeparator c = true) :
    Readable ⟨headed pieces ++ s.pieces, s.trailing⟩ := by
  rw [← List.append_nil (headed pieces)] at h
  exact readable_append_separator h hs (fun p hm => (hp p hm).closed)
    (fun p hm => (hp p hm).not_lineComment) hc

/-- A limit behind the statement is read as two more pieces. -/
theorem scan_appended (n : Nat) : Scan.ofChars (statementText pieces ++ " LIMIT ".toList ++ Text.ofNat n) =
    ⟨headed pieces ++ limitPieces n, []⟩ := by
  have hblank : ∀ c ∈ (Scan.text ⟨limitPieces n, []⟩).head?, isSeparator c = true := by
    intro c hc
    obtain rfl : c = ' ' := Option.some.inj hc.symm
    rfl
  have hread := readable_before h hp (readable_limit n) hblank
  have htext : statementText pieces ++ " LIMIT ".toList ++ Text.ofNat n =
      Scan.text ⟨headed pieces ++ limitPieces n, []⟩ := by
    rw [Scan.text, List.flatMap_append, ← text_headed]
    simp [Scan.text, limitPieces, Piece.text, limitWord, countToken]
  rw [htext]
  exact ofChars_text hread

/-- A limit behind the statement adds its two tokens. -/
theorem tokens_appended (n : Nat) :
    (Scan.ofChars (statementText pieces ++ " LIMIT ".toList ++ Text.ofNat n)).tokens =
      pieces.map Piece.token ++ [limitWord, countToken n] := by
  rw [scan_appended h hp, Scan.tokens, List.map_append, tokens_headed]
  rfl

/-- The statement is read inside of the subquery as it was. -/
theorem scan_wrapped (n : Nat) : Scan.ofChars (wrapped "geoview_limited" (statementText pieces) n) =
    ⟨openingPieces ++ (headed pieces ++ closingPieces n), []⟩ := by
  rw [← text_headed]
  exact scan_subquery h hp (by decide) n

theorem tokens_wrapped (n : Nat) : (Scan.ofChars (wrapped "geoview_limited" (statementText pieces) n)).tokens =
    openingPieces.map Piece.token ++
      (pieces.map Piece.token ++ (closingPieces n).map Piece.token) := by
  rw [scan_wrapped h hp, Scan.tokens, List.map_append, List.map_append, tokens_headed]

end Around

/-! ## A statement with another count -/

/-- Only a quoted text or a single character that begins nothing stands directly before a digit. -/
theorem kind_of_digit {t : Token} {c : Char} {rest : List Char} (h : Lexeme .scanned t (c :: rest))
    (hc : c.isDigit = true) : t.kind ≠ .word ∧ t.kind ≠ .number ∧ (∀ n, t.kind ≠ .placeholder n) ∧
      t.kind ≠ .punct '.' ∧ t.kind ≠ .punct '$' := by
  -- a token of each of these kinds would have taken the digit in
  refine ⟨fun hk => ?_, fun hk => ?_, fun n hk => ?_, fun hk => ?_, fun hk => ?_⟩
  · have hstop := head?_of_word h hk c rfl
    simp [isWordPart, hc] at hstop
  · obtain ⟨k, text⟩ := t
    obtain rfl : k = .number := hk
    have hstop := splitNumber_stops false false false (text ++ c :: rest)
    rw [(lexeme_number_iff.1 h).2] at hstop
    simpa [isFigure, hc] using hstop c rfl
  · generalize hrest : c :: rest = cs at h
    cases h with
    | @closed o => cases o <;> cases hk
    | placeholder _ _ hr =>
      rw [← hrest] at hr
      have hstop := hr c rfl
      rw [hc] at hstop
      cases hstop
    | _ => cases hk
  · generalize hrest : c :: rest = cs at h
    cases h with
    | @closed o => cases o <;> cases hk
    | punct _ _ hn =>
      obtain rfl := Kind.punct.inj hk
      rw [← startsNumeral_eq_false_iff, ← hrest] at hn
      simp [startsNumeral, hc] at hn
    | _ => cases hk
  · generalize hrest : c :: rest = cs at h
    cases h with
    | @closed o => cases o <;> cases hk
    | punct _ _ _ hd =>
      obtain rfl := Kind.punct.inj hk
      have hstop := hd rfl c (by rw [← hrest]; rfl)
      rw [hc] at hstop
      cases hstop
    | _ => cases hk

/-- A token directly before a digit would end before any other one too. -/
theorem endsBefore_digit {t : Token} {c d : Char} {rest : List Char}
    (h : Lexeme .scanned t (c :: rest)) (ht : Settled t) (hc : c.isDigit = true)
    (hd : d.isDigit = true) : EndsBefore t d := by
  obtain ⟨hword, hnumber, hplace, hpoint, hdollar⟩ := kind_of_digit h hc
  unfold EndsBefore
  split
  · rename_i hk; exact absurd hk hword
  · exact isDigit_ne hd rfl
  · exact fun _ => isDigit_ne hd rfl
  · rename_i hk; exact absurd hk hnumber
  · rename_i n hk; exact absurd hk (hplace n)
  · rename_i hk; exact absurd hk ht.not_lineComment
  · trivial
  · rename_i e hk
    refine ⟨fun _ => isDigit_ne hd rfl, fun _ => isDigit_ne hd rfl, ?_, ?_⟩
    · rintro rfl
      exact absurd hk hpoint
    · rintro rfl
      exact absurd hk hdollar
  · rename_i what hk; exact ht.closed what hk

/-- Such a token is no part of a tag. -/
theorem exists_not_isTagPart {t : Token} {c : Char} {rest : List Char}
    (h : Lexeme .scanned t (c :: rest)) (ht : Settled t) (hc : c.isDigit = true) :
    ∃ d ∈ t.text, Rules.scanned.isTagPart d = false := by
  obtain ⟨hword, hnumber, hplace, -, -⟩ := kind_of_digit h hc
  generalize hrest : c :: rest = cs at h
  -- A token that a digit can follow without joining it has a delimiter or is a single sign.
  cases h with
  | @closed o =>
    cases o with
    | string => exact ⟨'\'', by simp [Opening.text], rfl⟩
    | escapeString e => exact ⟨'\'', by simp [Opening.text], rfl⟩
    | identifier => exact ⟨'"', by simp [Opening.text], rfl⟩
    | comment => exact ⟨'/', by simp [Opening.text], rfl⟩
    | tagged tag => exact ⟨'$', by simp [Opening.text, delimiter], rfl⟩
  | unclosed => exact absurd rfl (ht.closed _)
  | lineComment => exact absurd rfl ht.not_lineComment
  | placeholder => exact absurd rfl (hplace _)
  | number => exact absurd rfl hnumber
  | word => exact absurd rfl hword
  | @punct e _ _ hstart hn =>
    refine ⟨e, by simp, ?_⟩
    have hdigit : e.isDigit = false := by
      rw [← startsNumeral_eq_false_iff] at hn
      simp only [startsNumeral, Bool.or_eq_false_iff] at hn
      exact hn.1
    rw [Rules.isTagPart, hdigit, Bool.or_false]
    exact (Bool.or_eq_false_iff.1 hstart).1

theorem toLower_of_isDigit {c : Char} (h : c.isDigit = true) : c.toLower = c := by
  rw [isDigit_iff] at h
  unfold Char.toLower
  rw [dif_neg]
  rintro ⟨hc, -⟩
  have hc : 65 ≤ c.toNat := hc
  omega

/-- Its first letter keeps a keyword apart from the numerals in front. -/
theorem exists_not_continues {t : Token} (h : t.isKeyword "fetch" = true) :
    ∃ d ∈ t.text, continuesNumeral d = false := by
  rw [isKeyword, Bool.and_eq_true] at h
  have hletters : t.text.map Char.toLower = ['f', 'e', 't', 'c', 'h'] := eq_of_beq h.2
  obtain ⟨c, cs, htext, hc, -⟩ := List.map_eq_cons_iff.1 hletters
  refine ⟨c, by simp [htext], ?_⟩
  rw [Bool.eq_false_iff]
  intro hcont
  simp only [continuesNumeral, isFigure, Bool.or_eq_true, beq_iff_eq] at hcont
  rcases hcont with (((((hd | rfl) | rfl) | rfl) | rfl) | rfl) | rfl
  · rw [toLower_of_isDigit hd] at hc
    rw [hc] at hd
    cases hd
  all_goals exact absurd hc (by decide)

/-- In front of a digit that follows `FETCH` and one more token, all is read as it was in front of
another one. -/
theorem readable_before_digit {front qs : List Piece} {keyword first : Piece} {s : Scan} {c d : Char}
    {cs : List Char} (h : Readable ⟨front ++ [keyword, first] ++ qs, []⟩)
    (hp : ∀ p ∈ front ++ [keyword, first], Settled p.token) (hs : Readable s)
    (hk : keyword.token.isKeyword "fetch" = true) (hqs : Scan.text ⟨qs, []⟩ = c :: cs)
    (hc : c.isDigit = true) (hd : ∀ e ∈ s.text.head?, e = d) (hdigit : d.isDigit = true) :
    Readable ⟨front ++ [keyword, first] ++ s.pieces, s.trailing⟩ := by
  have hfirst : Lexeme .scanned first.token (c :: cs) := by
    have hrest := h
    rw [List.append_assoc] at hrest
    have hl := (readable_cons.1 (readable_cons.1 (readable_of_append hrest)).2.2).2.1
    change Lexeme .scanned first.token (Scan.text ⟨qs, []⟩) at hl
    rwa [hqs] at hl
  have hsettled : Settled first.token := hp first (by simp)
  refine readable_append h hs (fun p hm => (hp p hm).closed) ?_ ?_
  · intro p hlast e he
    obtain rfl : p = first := by simpa using hlast.symm
    rw [hd e he]
    exact endsBefore_digit hfirst hsettled hc hdigit
  · intro as p bs hsplit hnum hbs
    -- a numeral or dollar sign with a token behind it stands in front of the keyword
    have hmem : keyword ∈ bs ∧ first ∈ bs := by
      rcases List.eq_nil_or_concat bs with rfl | ⟨bs, q, rfl⟩
      · exact absurd rfl hbs
      have hlast : (front ++ [keyword]) ++ [first] = (as ++ p :: bs) ++ [q] := by
        simpa using hsplit
      obtain ⟨hinit, hq⟩ := List.append_inj' hlast rfl
      obtain rfl := List.singleton_inj.1 hq
      rcases List.eq_nil_or_concat bs with rfl | ⟨bs, r, rfl⟩
      · obtain rfl := List.singleton_inj.1 (List.append_inj' hinit rfl).2
        rw [word_of_isKeyword hk] at hnum
        simp at hnum
      have hinit : front ++ [keyword] = (as ++ p :: bs) ++ [r] := by
        simpa using hinit
      obtain rfl := List.singleton_inj.1 (List.append_inj' hinit rfl).2
      simp
    intro e he
    obtain ⟨x, hx, hxc⟩ := exists_not_continues hk
    obtain ⟨y, hy, hyc⟩ := exists_not_isTagPart hfirst hsettled hc
    refine ⟨fun _ => ⟨x, ?_, hxc⟩, fun _ => .inr ⟨y, ?_, hyc⟩⟩
    · exact List.mem_flatMap.2 ⟨keyword, hmem.1, by simp [Piece.text, hx]⟩
    · exact List.mem_flatMap.2 ⟨first, hmem.2, by simp [Piece.text, hy]⟩
/-- A count stands behind a word, or behind `FETCH` and one more token. -/
def Follows (front : List Token) (count : Token) : Prop :=
  (∃ t ∈ front.getLast?, t.kind = .word ∧ ∃ c ∈ count.text.head?, isWordPart c = true) ∨
    ∃ ts keyword first, front = ts ++ [keyword, first] ∧ keyword.isKeyword "fetch" = true ∧
      ∃ c ∈ count.text.head?, c.isDigit = true

/-- A word without blanks behind it ends in front of a character that is no part of a word. -/
theorem isWordPart_behind_word {before behind : List Piece} {count : Piece} {c : Char} {cs : List Char}
    (h : Readable ⟨before ++ count :: behind, []⟩) (htail : Scan.text ⟨count :: behind, []⟩ = c :: cs) {t : Token}
    (ht : t ∈ (before.map Piece.token).getLast?) (hword : t.kind = .word) : isWordPart c = false := by
  rw [List.getLast?_map, Option.mem_def, Option.map_eq_some_iff] at ht
  obtain ⟨p, hlast, rfl⟩ := ht
  obtain ⟨front, rfl⟩ := List.getLast?_eq_some_iff.1 hlast
  rw [List.append_assoc] at h
  have hl := (readable_cons.1 (readable_of_append h)).2.1
  change Lexeme .scanned p.token (Scan.text ⟨count :: behind, []⟩) at hl
  rw [htail] at hl
  exact head?_of_word hl hword c rfl

/-- What stands in front of a count is read as it was in front of a number. -/
theorem readable_before_count {before behind : List Piece} {count : Piece} {s : Scan} {n : Nat}
    {rest : List Char} (h : Readable ⟨before ++ count :: behind, []⟩)
    (hp : ∀ p ∈ before, Settled p.token) (hs : Readable s)
    (htext : s.text = count.blanks ++ (Text.ofNat n ++ rest))
    (hcount : Follows (before.map Piece.token) count.token) :
    Readable ⟨before ++ s.pieces, s.trailing⟩ := by
  obtain ⟨hblank, -, -⟩ := readable_cons.1 (readable_of_append h)
  cases hb : count.blanks with
  | cons b bs =>
    refine readable_append_separator h hs (fun p hm => (hp p hm).closed)
      (fun p hm => (hp p hm).not_lineComment) fun c hc => ?_
    rw [htext, hb] at hc
    obtain rfl : b = c := Option.some.inj hc
    simp [isSeparator, hblank b (by simp [hb])]
  | nil =>
    -- without a blank, the token in front of the count ends before its first character
    obtain ⟨d, ds, hd⟩ := List.exists_cons_of_ne_nil (ofNat_ne_nil n)
    have htail : ∀ c ∈ count.token.text.head?,
        ∃ cs, Scan.text ⟨count :: behind, []⟩ = c :: cs := by
      intro c hc
      rw [text_cons, hb, List.nil_append]
      cases hcs : count.token.text with
      | nil => simp [hcs] at hc
      | cons e es =>
        obtain rfl : e = c := by simpa [hcs] using hc
        exact ⟨_, rfl⟩
    rcases hcount with ⟨t, ht, hword, c, hc, hpart⟩ | ⟨ts, keyword, first, hbefore, hk, c, hc, hdigit⟩
    · -- a word would have gone on into the count
      obtain ⟨cs, hcs⟩ := htail c hc
      have hstop := isWordPart_behind_word h hcs ht hword
      rw [hpart] at hstop
      cases hstop
    · obtain ⟨cs, hcs⟩ := htail c hc
      obtain ⟨front, last, rfl, -, hlast⟩ := List.map_eq_append_iff.1 hbefore
      obtain ⟨p, ps, rfl, rfl, hps⟩ := List.map_eq_cons_iff.1 hlast
      obtain ⟨q, qs, rfl, rfl, hqs⟩ := List.map_eq_cons_iff.1 hps
      obtain rfl := List.map_eq_nil_iff.1 hqs
      have hmem : d ∈ Text.ofNat n := by
        rw [hd]
        exact List.mem_cons_self
      refine readable_before_digit h hp hs hk hcs hdigit ?_ (Text.isDigit_ofNat d hmem)
      intro e he
      rw [htext, hb, hd] at he
      exact (Option.some.inj he).symm

/-- What stands in front of a count that is replaced is read as it was. -/
theorem scan_withCount {before behind : List Piece} {count : Piece}
    (h : Readable ⟨headed (before ++ count :: behind), []⟩) (hne : before ≠ [])
    (hp : ∀ p ∈ headed (before ++ count :: behind), Settled p.token)
    (hcount : Follows (before.map Piece.token) count.token) (n : Nat) :
    Scan.ofChars (withCount before count behind n) =
      ⟨headed before ++ (Scan.ofChars (withCount [] count behind n)).pieces,
        (Scan.ofChars (withCount [] count behind n)).trailing⟩ := by
  rw [headed_append hne] at h hp
  rw [← tokens_headed before] at hcount
  have hcs : (Scan.ofChars (withCount [] count behind n)).text =
      count.blanks ++ (Text.ofNat n ++ behind.flatMap Piece.text) := by
    rw [Scan.text_ofChars, withCount, statementText, List.nil_append, List.append_assoc]
  have hread := readable_before_count h (fun p hm => hp p (List.mem_append_left _ hm))
    (readable_ofChars _) hcs hcount
  have htext : withCount before count behind n = Scan.text ⟨headed before ++
      (Scan.ofChars (withCount [] count behind n)).pieces,
        (Scan.ofChars (withCount [] count behind n)).trailing⟩ := by
    rw [text_append]
    change _ = _ ++ (Scan.ofChars (withCount [] count behind n)).text
    rw [Scan.text_ofChars, withCount, ← text_headed]
    simp [withCount, statementText, Scan.text]
  exact (congrArg Scan.ofChars htext).trans (ofChars_text hread)

/-- A number in the place of a number is one token. -/
theorem scan_lowered {count : Piece} {behind : List Piece} (h : Readable ⟨count :: behind, []⟩)
    (hnum : count.token.isNumber = true) (hdigits : ∀ c ∈ count.token.text, c.isDigit = true) (n : Nat) :
    Scan.ofChars (withCount [] count behind n) = ⟨⟨count.blanks, countToken n⟩ :: behind, []⟩ := by
  obtain ⟨hb, hl, hrest⟩ := readable_cons.1 h
  obtain ⟨blanks, kind, text⟩ := count
  obtain rfl : kind = .number := eq_of_beq hnum
  have hread : Readable ⟨⟨blanks, countToken n⟩ :: behind, []⟩ :=
    readable_cons.2 ⟨hb, lexeme_digits hl hdigits (ofNat_ne_nil n) Text.isDigit_ofNat, hrest⟩
  have htext : withCount [] ⟨blanks, ⟨.number, text⟩⟩ behind n =
      Scan.text ⟨⟨blanks, countToken n⟩ :: behind, []⟩ := by
    simp [withCount, statementText, Scan.text, Piece.text, countToken]
  rw [htext]
  exact ofChars_text hread

end SpatialQuery.RowLimit
