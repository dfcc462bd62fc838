import SpatialQuery.Proofs.Limit.Bound

/-!
When a statement is not rewritten a second time. A limit is left as it is if the first clause outside of
all parentheses counts its rows by a literal that is not too large (`Accepts`). `Settles` is the exact
condition under which the statement that is run has such a limit (`rewrite_settles_iff`).
-/

namespace SpatialQuery.RowLimit

open Token Lexical Validation

/-- The clause is left as it is. -/
def Accepted (policy : Policy) : LimitClause → Prop
  | .literal _ count _ =>
    ∀ n max, Text.readNat64 count.token.text = .ok n → policy.maxLimit = some max → n ≤ max
  | .singleRow => True
  | .all .. | .computed => False

/-- Behind pieces that leave `depth` parentheses open, the first clause is left as it is. -/
def Accepts (policy : Policy) (depth : Nat) (ps : List Piece) : Prop :=
  ∃ c, firstClause depth ps = some c ∧ Accepted policy (clauseOf c.keyword c.behind)

/-- The condition on a statement, by its first clause: the limit that it is given must be found outside of
all parentheses, and must end the count. -/
def Settles (policy : Policy) (pieces : List Piece) : Prop :=
  match firstClause 0 pieces with
  | none => depthAfter (tokensOf pieces) = 0
  | some c =>
    match clauseOf c.keyword c.behind with
    | .all _ count rest =>
      -- the number in the place of the word may run into a point behind it
      endsCount ((Scan.ofChars (withCount [] count rest policy.limitToAdd)).pieces.drop 1) = true
    | .literal .. | .singleRow => True
    | .computed =>
      -- a parenthesis too many leaves the subquery, and what stands behind it is found first
      match firstClause 1 pieces with
      | none => (tokensOf pieces).foldl depthStep 1 ≤ 1
      | some d => Accepted policy (clauseOf d.keyword (d.behind ++ closingPieces policy.limitAround))

/-! ## Clauses that are left as they are -/

section Accepts

variable {policy : Policy} {depth : Nat}

/-- The text is run as it is if its first clause is left as it is. -/
theorem boundRows_eq_iff {ps : List Piece} {text : List Char} :
    boundRows policy ps = (text, none) ↔ statementText ps = text ∧ Accepts policy 0 ps := by
  unfold boundRows Accepts
  rw [findLimit_eq]
  cases firstClause 0 ps with
  | none => simp
  | some c =>
    simp only [Option.map_some, Option.some.injEq, exists_eq_left']
    cases clauseOf c.keyword c.behind with
    | all => simp [under, Accepted]
    | singleRow => simp [under, Accepted]
    | computed => simp [under, Accepted]
    | literal before count behind =>
      simp only [under, Accepted]
      cases Text.readNat64 count.token.text with
      | error => simp
      | ok n =>
        cases policy.maxLimit with
        | none => simp
        | some max =>
          dsimp only
          split <;> simp <;> omega

/-- A clause behind tokens that begin none. -/
theorem firstClause_append {xs : List Piece} (ys : List Piece) (h : Clauseless depth (tokensOf xs)) :
    firstClause depth (xs ++ ys) = (firstClause ((tokensOf xs).foldl depthStep depth) ys).map fun c =>
      { c with before := xs ++ c.before } := by
  induction xs generalizing depth with
  | nil => simp [tokensOf]
  | cons x xs ih =>
    have hx : ¬(depth = 0 ∧ x.token.isAnyKeyword ["limit", "fetch"] = true) := by
      rintro ⟨rfl, hk⟩
      rw [h [] x.token (tokensOf xs) rfl rfl] at hk
      cases hk
    have hxs : Clauseless (depthStep depth x.token) (tokensOf xs) := fun as t bs he =>
      h (x.token :: as) t bs (congrArg (x.token :: ·) he)
    rw [List.cons_append, firstClause, if_neg hx, ih hxs, Option.map_map]
    rfl

theorem accepts_append {xs ys : List Piece} (h : Clauseless depth (tokensOf xs)) :
    Accepts policy depth (xs ++ ys) ↔ Accepts policy ((tokensOf xs).foldl depthStep depth) ys := by
  unfold Accepts
  rw [firstClause_append ys h]
  simp

theorem accepts_keyword {keyword : Piece} (hk : keyword.token.isAnyKeyword ["limit", "fetch"] = true)
    (behind : List Piece) :
    Accepts policy 0 (keyword :: behind) ↔ Accepted policy (clauseOf keyword behind) := by
  simp [Accepts, firstClause, hk]

/-- In front of the first clause stands at least one token, and all of it is read over. -/
theorem accepts_split {xs behind : List Piece} {keyword : Piece}
    (hk : keyword.token.isAnyKeyword ["limit", "fetch"] = true)
    (h : Clauseless depth (tokensOf xs)) (hdepth : (tokensOf xs).foldl depthStep depth = 0) :
    Accepts policy depth (xs ++ keyword :: behind) ↔ Accepted policy (clauseOf keyword behind) := by
  rw [accepts_append h, hdepth, accepts_keyword hk]

/-- The blanks in front do not matter. -/
theorem tokensOf_headed (ps : List Piece) : tokensOf (headed ps) = tokensOf ps :=
  tokens_headed ps

/-! ## New limits -/

theorem eq_of_readNat64_ofNat {n k : Nat} (h : Text.readNat64 (Text.ofNat n) = .ok k) : k = n := by
  obtain ⟨-, hv⟩ := digits_of_readNat64 (numeral_ofNat n) h
  rw [value_ofNat] at hv
  exact_mod_cast hv.symm

/-- A limit behind the tokens counts outside of all parentheses only. -/
theorem accepts_limit {n : Nat} (hn : ∀ max, policy.maxLimit = some max → n ≤ max) :
    Accepts policy depth (limitPieces n) ↔ depth = 0 := by
  rcases Nat.eq_zero_or_pos depth with rfl | hpos
  · rw [limitPieces, accepts_keyword rfl]
    refine iff_of_true (fun k max hk hmax => ?_) rfl
    rw [eq_of_readNat64_ofNat hk]
    exact hn max hmax
  · have hdepth : ¬depth = 0 := Nat.ne_of_gt hpos
    refine iff_of_false ?_ hdepth
    rintro ⟨c, hc, -⟩
    simp [limitPieces, firstClause, hdepth, depthStep, limitWord, countToken, isPunct] at hc

theorem limitToAdd_le (policy : Policy) : ∀ max, policy.maxLimit = some max → policy.limitToAdd ≤ max := by
  intro max h
  simp [Policy.limitToAdd, h]

theorem limitAround_le (policy : Policy) : ∀ max, policy.maxLimit = some max → policy.limitAround ≤ max := by
  intro max h
  simp [Policy.limitAround, h]

/-- The limit around a subquery counts unless the statement leaves a parenthesis open, and a clause
behind a parenthesis too many stands in front of it. -/
theorem accepts_wrapped (policy : Policy) (pieces : List Piece) :
    Accepts policy 1 (headed pieces ++ closingPieces policy.limitAround) ↔
      match firstClause 1 pieces with
      | none => (tokensOf pieces).foldl depthStep 1 ≤ 1
      | some d => Accepted policy (clauseOf d.keyword (d.behind ++ closingPieces policy.limitAround)) := by
  cases hc : firstClause 1 pieces with
  | none =>
    have hpieces := clauseless_of_firstClause hc
    rw [← tokensOf_headed] at hpieces ⊢
    rw [accepts_append hpieces]
    generalize (tokensOf (headed pieces)).foldl depthStep 1 = d
    have hname : Clauseless d (closeParen :: subqueryName) :=
      clauseless_cons (fun _ => isAnyKeyword_closeParen _) (clauseless_name _)
    -- Behind the parenthesis and the name of the subquery, only the last two tokens can open a clause.
    have hclosing : closingPieces policy.limitAround =
        (closingPieces policy.limitAround).take 3 ++ limitPieces policy.limitAround := rfl
    rw [hclosing, accepts_append hname, accepts_limit (limitAround_le policy)]
    change d - 1 = 0 ↔ _
    omega
  | some c =>
    obtain ⟨hpieces, hdepth, hk, hbefore⟩ := firstClause_spec hc
    have hne : c.before ≠ [] := by
      intro hnil
      rw [hnil] at hdepth
      cases hdepth
    rw [← tokensOf_headed] at hdepth hbefore
    conv_lhs => rw [hpieces, headed_append hne]
    rw [List.append_assoc, List.cons_append]
    exact accepts_split hk hbefore hdepth

end Accepts

/-! ## The last character -/

theorem isSpace_of {p : Char → Bool} (h : [' ', '\t', '\n', '\r', '\x0c'].any p = false) {c : Char}
    (hc : p c = true) : isSpace c = false := by
  rw [Bool.eq_false_iff]
  intro hs
  have hmem : c ∈ [' ', '\t', '\n', '\r', '\x0c'] := by
    simpa [isSpace, or_assoc] using hs
  exact List.any_eq_false.1 h c hmem hc

/-- A token that ends by itself does not end in a blank. -/
theorem last_solid {t : Token} {rest : List Char} (hs : Settled t) (h : Lexeme .scanned t rest) :
    ∀ c ∈ t.text.getLast?, isSpace c = false := by
  intro c hc
  have hmem := List.mem_of_getLast? hc
  cases h with
  | @closed o body _ ho hcl =>
    obtain ⟨cs, e, rfl, he⟩ : ∃ cs e, body = cs ++ [e] ∧ isSpace e = false := by
      cases o with
      | string => obtain ⟨cs, -, rfl, -⟩ := hcl; exact ⟨cs, '\'', rfl, rfl⟩
      | escapeString => obtain ⟨cs, -, rfl, -⟩ := hcl; exact ⟨cs, '\'', rfl, rfl⟩
      | identifier => obtain ⟨cs, -, rfl, -⟩ := hcl; exact ⟨cs, '"', rfl, rfl⟩
      | comment => exact absurd hs.code (by simp [isComment, Opening.kind])
      | tagged tag => obtain ⟨cs, rfl, -⟩ := hcl; exact ⟨cs ++ '$' :: tag, '$', by simp [delimiter], rfl⟩
    obtain rfl : e = c := by simpa [← List.append_assoc] using hc
    exact he
  | unclosed => exact absurd rfl (hs.closed _)
  | lineComment => exact absurd rfl hs.not_lineComment
  | placeholder _ hd =>
    refine isSpace_of (p := isWordPart) (by decide) ?_
    rcases List.mem_cons.1 hmem with rfl | hmem
    · rfl
    · simp [isWordPart, hd c hmem]
  | number hn => exact isSpace_of (p := continuesNumeral) (by decide) (hn.continues c hmem)
  | @word d ds _ hw hd =>
    refine isSpace_of (p := isWordPart) (by decide) ?_
    rcases List.mem_cons.1 hmem with rfl | hmem
    · simp [isWordPart, hw]
    · exact hd c hmem
  | punct hp =>
    obtain rfl := Option.some.inj hc
    exact hp

theorem trailing_ofChars {cs : List Char} (h : ∀ c ∈ cs.getLast?, isSpace c = false) :
    (Scan.ofChars cs).trailing = [] := by
  rcases List.eq_nil_or_concat (Scan.ofChars cs).trailing with hnil | ⟨ds, d, htrail⟩
  · exact hnil
  -- its last character would be the last one of the text
  · have hblank := (blank_of_readable (readable_ofChars cs)).2 d (by simp [htrail])
    have htext := Scan.text_ofChars cs
    rw [Scan.text, htrail, List.concat_eq_append, ← List.append_assoc] at htext
    rw [h d (by rw [← htext]; simp)] at hblank
    cases hblank

/-! ## The text that is run -/

section Rewrite

variable {policy : Policy} {pieces : List Piece} {c : Split}

/-- A text whose scan is known is run as it is if its first clause is left as it is. -/
theorem fixed_iff {cs : List Char} {ps : List Piece} (h : Scan.ofChars cs = ⟨headed ps, []⟩) :
    boundRows policy (Scan.ofChars cs).pieces = (cs, none) ↔ Accepts policy 0 (headed ps) := by
  have htext : statementText (headed ps) = cs := by
    have hps : headed (headed ps) = headed ps := by cases ps <;> rfl
    rw [← text_headed, hps, ← h, Scan.text_ofChars]
  rw [h, boundRows_eq_iff, and_iff_right htext]

/-- A statement does not begin with its limit. -/
theorem before_ne_nil (hverb : ∃ p ∈ pieces.head?, p.token.isAnyKeyword ["select", "with"] = true)
    (hc : firstClause 0 pieces = some c) : c.before ≠ [] := by
  obtain ⟨hpieces, -, hk, -⟩ := firstClause_spec hc
  obtain ⟨p, hp, hverb⟩ := hverb
  intro hnil
  rw [hpieces, hnil] at hp
  obtain rfl : c.keyword = p := Option.some.inj hp
  rw [not_isAnyKeyword hverb (by decide)] at hk
  cases hk

/-- Behind what stands in front of the first clause, only its keyword and what follows matter. -/
theorem accepts_first (hverb : ∃ p ∈ pieces.head?, p.token.isAnyKeyword ["select", "with"] = true)
    (hc : firstClause 0 pieces = some c) (behind : List Piece) :
    Accepts policy 0 (headed (c.before ++ c.keyword :: behind)) ↔
      Accepted policy (clauseOf c.keyword behind) := by
  obtain ⟨-, hdepth, hk, hbefore⟩ := firstClause_spec hc
  rw [← tokensOf_headed] at hdepth hbefore
  rw [headed_append (before_ne_nil hverb hc)]
  exact accepts_split hk hbefore hdepth

/-- A number takes the place of a number. -/
theorem clauseOf_recount {keyword count used : Piece} {behind before rest : List Piece}
    (hk : keyword.token.isAnyKeyword ["limit", "fetch"] = true)
    (h : clauseOf keyword behind = .literal before count rest) (hu : used.token.isNumber = true) :
    ∃ between, before = keyword :: between ∧ behind = between ++ count :: rest ∧
      clauseOf keyword (between ++ used :: rest) = .literal before used rest := by
  obtain ⟨between, rfl, rfl, hn, hplace⟩ := clauseOf_literal hk h
  refine ⟨between, rfl, rfl, ?_⟩
  rcases hplace with ⟨hlimit, rfl⟩ | ⟨hfetch, ⟨first, rfl⟩, t, ht, hrow⟩
  · simp only [clauseOf, hlimit, ↓reduceIte, List.nil_append, limitClause, isAnyKeyword_of_isNumber hn,
      isAnyKeyword_of_isNumber hu, hn, hu, Bool.true_and, Bool.false_eq_true] at h ⊢
    split at h
    · rename_i hend
      rw [if_pos hend]
    · cases h
  · have hlimit := not_isKeyword hfetch (b := "limit") (by decide)
    obtain ⟨p, hp, rfl⟩ : ∃ p ∈ rest.head?, p.token = t := by
      rw [tokensOf, List.head?_map] at ht
      exact Option.map_eq_some_iff.1 ht
    have hrows : rest.head?.any (·.token.isAnyKeyword ["row", "rows"]) = true := by
      rw [hp]
      exact hrow
    simp [clauseOf, hlimit, fetchClause, isAnyKeyword_of_isNumber hu, hu, hrows]

/-- The number in the place of a word, which a point may follow. -/
theorem splitNumber_ofNat (n : Nat) {rest : List Char} (h : ∀ c ∈ rest.head?, isWordPart c = false) :
    ∃ more, (splitNumber false false false (Text.ofNat n ++ rest)).1 = Text.ofNat n ++ more ∧
      ∀ c ∈ more.head?, c = '.' := by
  have hfigures : ∀ c ∈ Text.ofNat n, isFigure c = true := fun c hc => by
    simp [isFigure, Text.isDigit_ofNat c hc]
  refine ⟨(splitNumber false false false rest).1, ?_, ?_⟩
  · rw [splitNumber_figures hfigures, after_fst]
  · cases rest with
    | nil => rintro _ ⟨⟩
    | cons c cs =>
      have hc := h c rfl
      by_cases hpoint : c = '.'
      · rw [hpoint, splitNumber_point, after_fst]
        rintro d ⟨⟩
        rfl
      · have hstop : (splitNumber false false false (c :: cs)).1 = [] := by
          have hne : ∀ d, isWordPart d = true → c ≠ d := by
            rintro d hd rfl
            rw [hc] at hd
            cases hd
          have hdigit : c.isDigit = false := by
            simp only [isWordPart, Bool.or_eq_false_iff] at hc
            exact hc.1.2
          simp [splitNumber, hdigit, hpoint, hne '_' rfl, hne 'e' rfl, hne 'E' rfl]
        rw [hstop]
        rintro _ ⟨⟩

/-- The scan behind the keyword begins with the new number. -/
theorem scan_number {count : Piece} {rest : List Piece} (h : Readable ⟨count :: rest, []⟩)
    (hword : count.token.kind = .word) (n : Nat) :
    ∃ p ps, (Scan.ofChars (withCount [] count rest n)).pieces = p :: ps ∧ p.token.isNumber = true ∧
      ∃ more, p.token.text = Text.ofNat n ++ more ∧ ∀ c ∈ more.head?, c = '.' := by
  obtain ⟨hblanks, hl, -⟩ := readable_cons.1 h
  have htail : Scan.text ⟨rest, []⟩ = rest.flatMap Piece.text := List.append_nil _
  have hbehind := head?_of_word hl hword
  rw [htail] at hbehind
  obtain ⟨more, hnum, hmore⟩ := splitNumber_ofNat n hbehind
  obtain ⟨d, ds, hd⟩ := List.exists_cons_of_ne_nil (ofNat_ne_nil n)
  have hmem : d ∈ Text.ofNat n := by simp [hd]
  have hdigit : d.isDigit = true := Text.isDigit_ofNat d hmem
  have htext : withCount [] count rest n = count.blanks ++ (d :: (ds ++ rest.flatMap Piece.text)) := by
    rw [withCount, statementText, List.nil_append, hd]
    simp
  have hsolid : isSpace d = false := isSpace_of (p := Char.isDigit) (by decide) hdigit
  have hstart : startsNumeral d (ds ++ rest.flatMap Piece.text) = true := by
    simp [startsNumeral, hdigit]
  have hread := Rules.read_number .scanned hstart
  have hscan := ofChars_append hblanks (lexeme_read .scanned hsolid (ds ++ rest.flatMap Piece.text))
  rw [Rules.read_append, hread, ← List.cons_append, ← hd, hnum] at hscan
  rw [htext, ← List.cons_append, ← hd, hscan]
  exact ⟨_, _, rfl, rfl, more, rfl, hmore⟩

/-- The text with the new number does not end in a blank. -/
theorem last_withCount {before rest : List Piece} {count : Piece} (h : Valid pieces)
    (hsplit : pieces = before ++ count :: rest) (hne : before ≠ []) (n : Nat) :
    ∀ c ∈ (withCount [] count rest n).getLast?, isSpace c = false := by
  intro c hc
  rcases List.eq_nil_or_concat rest with rfl | ⟨rs, q, rfl⟩
  · have hlast : c ∈ (Text.ofNat n).getLast? := by
      simpa [withCount, ofNat_ne_nil n] using hc
    exact isSpace_of (p := Char.isDigit) (by decide) (Text.isDigit_ofNat c (List.mem_of_getLast? hlast))
  · have hq : q ∈ headed pieces := by
      rw [hsplit, headed_append hne]
      simp
    obtain ⟨_, hl⟩ := lexeme_of_readable h.readable hq
    have hlast : c ∈ q.token.text.getLast? := by
      simpa [withCount, Piece.text, hl.text_ne_nil] using hc
    exact last_solid (h.settled q hq) hl c hlast

theorem limit_of_all {keyword count : Piece} {behind before rest : List Piece}
    (h : clauseOf keyword behind = .all before count rest) : keyword.token.isKeyword "limit" = true := by
  unfold clauseOf fetchClause at h
  split at h
  · assumption
  · split at h
    · split at h
      · cases h
      · split at h <;> cases h
    · cases h

/-- A number in the place of the word settles the limit if it ends the count. -/
theorem settles_all {before rest : List Piece} {count : Piece} (h : Valid pieces)
    (hverb : ∃ p ∈ pieces.head?, p.token.isAnyKeyword ["select", "with"] = true)
    (hc : firstClause 0 pieces = some c)
    (hall : clauseOf c.keyword c.behind = .all before count rest) {n : Nat}
    (hn : ∀ max, policy.maxLimit = some max → n ≤ max) :
    boundRows policy (Scan.ofChars (withCount (c.before ++ before) count rest n)).pieces =
        (withCount (c.before ++ before) count rest n, none) ↔
      endsCount ((Scan.ofChars (withCount [] count rest n)).pieces.drop 1) = true := by
  obtain ⟨hsplit, rfl, -⟩ := split_all h hc hall
  obtain ⟨-, -, hword⟩ := clauseOf_all hall
  have hcount : Readable ⟨count :: rest, []⟩ := by
    have hread := h.readable
    rw [hsplit, headed_append (by simp)] at hread
    exact readable_of_append hread
  obtain ⟨p, ps, hpieces, hnum, more, htext, hmore⟩ :=
    scan_number hcount (word_of_isAnyKeyword hword) n
  have htrail := trailing_ofChars (last_withCount h hsplit (by simp) n)
  have hscan := scan_all h hc hall n
  rw [htrail, ← headed_append (by simp), hpieces, List.append_assoc, List.singleton_append] at hscan
  rw [fixed_iff hscan, accepts_first hverb hc, hpieces, List.drop_one, List.tail_cons]
  have hclause : clauseOf c.keyword (p :: ps) =
      if endsCount ps then .literal [c.keyword] p ps else .computed := by
    simp [clauseOf, limit_of_all hall, limitClause, isAnyKeyword_of_isNumber hnum, hnum]
  rw [hclause]
  cases endsCount ps with
  | false => exact iff_of_false (fun h => h) (by simp)
  | true =>
    refine iff_of_true (fun k max hk hmax => ?_) rfl
    -- a number with a point in it is not read
    have hdigits := (digits_of_readNat64 (numeral_of_isNumber (lexeme_of_readable (readable_ofChars _) (p := p)
      (by rw [hpieces]; simp)).choose_spec hnum) hk).1
    have hnil : more = [] := by
      cases more with
      | nil => rfl
      | cons d ds =>
        have hd := hdigits d (by simp [htext])
        rw [hmore d rfl] at hd
        cases hd
    rw [htext, hnil, List.append_nil] at hk
    rw [eq_of_readNat64_ofNat hk]
    exact hn max hmax

/-- The largest limit in the place of a larger number settles the limit. -/
theorem settles_lowered {before rest : List Piece} {count : Piece} (h : Valid pieces)
    (hverb : ∃ p ∈ pieces.head?, p.token.isAnyKeyword ["select", "with"] = true)
    (hc : firstClause 0 pieces = some c)
    (hlit : clauseOf c.keyword c.behind = .literal before count rest) {n max : Nat}
    (hn : Text.readNat64 count.token.text = .ok n) (hmax : policy.maxLimit = some max) :
    boundRows policy (Scan.ofChars (withCount (c.before ++ before) count rest max)).pieces =
      (withCount (c.before ++ before) count rest max, none) := by
  obtain ⟨-, -, hk, -⟩ := firstClause_spec hc
  have hscan := scan_literal h hc hlit hn max
  have hused : (⟨count.blanks, countToken max⟩ : Piece).token.isNumber = true := rfl
  obtain ⟨between, rfl, -, hclause⟩ := clauseOf_recount hk hlit hused
  rw [← headed_append (by simp), List.append_assoc, List.cons_append] at hscan
  rw [fixed_iff hscan, accepts_first hverb hc, hclause]
  intro k max' hk' hmax'
  rw [eq_of_readNat64_ofNat hk']
  exact le_of_eq (Option.some.inj (hmax.symm.trans hmax'))

/-- A limit behind the statement settles it if the statement leaves no parenthesis open. -/
theorem settles_added (h : Valid pieces) (hne : pieces ≠ []) (hc : firstClause 0 pieces = none) {n : Nat}
    (hn : ∀ max, policy.maxLimit = some max → n ≤ max) :
    boundRows policy (Scan.ofChars (statementText pieces ++ " LIMIT ".toList ++ Text.ofNat n)).pieces =
        (statementText pieces ++ " LIMIT ".toList ++ Text.ofNat n, none) ↔
      (tokensOf pieces).foldl depthStep 0 = 0 := by
  have hbefore := clauseless_of_firstClause hc
  have hscan := scan_appended h.readable h.settled n
  rw [← headed_append hne] at hscan
  rw [← tokensOf_headed] at hbefore ⊢
  rw [fixed_iff hscan, headed_append hne, accepts_append hbefore, accepts_limit hn]

/-- The limit around the statement is found first unless the statement leaves its parentheses. -/
theorem settles_wrapped (policy : Policy) (h : Valid pieces) :
    boundRows policy (Scan.ofChars (wrapped "geoview_limited" (statementText pieces) policy.limitAround)).pieces =
        (wrapped "geoview_limited" (statementText pieces) policy.limitAround, none) ↔
      match firstClause 1 pieces with
      | none => (tokensOf pieces).foldl depthStep 1 ≤ 1
      | some d => Accepted policy (clauseOf d.keyword (d.behind ++ closingPieces policy.limitAround)) := by
  have hscan : Scan.ofChars (wrapped "geoview_limited" (statementText pieces) policy.limitAround) =
      ⟨headed (openingPieces ++ (headed pieces ++ closingPieces policy.limitAround)), []⟩ :=
    scan_wrapped h.readable h.settled policy.limitAround
  have hopening : Clauseless 0 (tokensOf openingPieces) := clauseless_opening
  rw [fixed_iff hscan]
  exact (accepts_append hopening).trans (accepts_wrapped policy pieces)

/-- Running the limit stage on its own output. -/
theorem settles_boundRows (policy : Policy) (h : Valid pieces)
    (hverb : ∃ p ∈ pieces.head?, p.token.isAnyKeyword ["select", "with"] = true) :
    boundRows policy (Scan.ofChars (boundRows policy pieces).1).pieces = ((boundRows policy pieces).1, none) ↔
      Settles policy pieces := by
  have hkept : Accepts policy 0 pieces →
      boundRows policy (Scan.ofChars (boundRows policy pieces).1).pieces = ((boundRows policy pieces).1, none) := by
    intro ha
    rw [boundRows_eq_iff.2 ⟨rfl, ha⟩, fixed_iff (scan_statement h)]
    obtain ⟨c, hc, ha⟩ := ha
    rwa [(firstClause_spec hc).1, accepts_first hverb hc]
  unfold Settles
  cases hc : firstClause 0 pieces with
  | none =>
    -- the clause that is added is the first one of the second run
    have hrun : (boundRows policy pieces).1 =
        statementText pieces ++ " LIMIT ".toList ++ Text.ofNat policy.limitToAdd := by
      simp [boundRows, findLimit_eq, hc]
    have hne : pieces ≠ [] := by
      rintro rfl
      obtain ⟨p, hp, -⟩ := hverb
      cases hp
    rw [hrun]
    exact settles_added h hne hc (limitToAdd_le policy)
  | some c =>
    obtain ⟨hpieces, -, hk, -⟩ := firstClause_spec hc
    dsimp only
    cases hl : clauseOf c.keyword c.behind with
    | all before count rest =>
      have hrun : (boundRows policy pieces).1 =
          withCount (c.before ++ before) count rest policy.limitToAdd := by
        simp [boundRows, findLimit_eq, hc, hl, under]
      rw [hrun]
      exact settles_all h hverb hc hl (limitToAdd_le policy)
    | singleRow => exact iff_of_true (hkept ⟨c, hc, by rw [hl]; trivial⟩) trivial
    | computed =>
      -- the statement stands in parentheses then, so the second run finds the limit around it
      have hrun : (boundRows policy pieces).1 =
          wrapped "geoview_limited" (statementText pieces) policy.limitAround := by
        simp [boundRows, findLimit_eq, hc, hl, under]
      rw [hrun]
      exact settles_wrapped policy h
    | literal before count rest =>
      refine iff_of_true ?_ trivial
      -- a number that is accepted stays, another one is replaced by the largest that is accepted
      by_cases ha : Accepted policy (clauseOf c.keyword c.behind)
      · exact hkept ⟨c, hc, ha⟩
      · rw [hl, Accepted] at ha
        push Not at ha
        obtain ⟨n, max, hn, hmax, hlt⟩ := ha
        have hrun : (boundRows policy pieces).1 = withCount (c.before ++ before) count rest max := by
          simp [boundRows, findLimit_eq, hc, hl, under, hn, hmax, hlt]
        rw [hrun]
        exact settles_lowered h hverb hc hl hn hmax

end Rewrite

/-- The text to run is left as it is by a second run of the limit stage exactly if the statement that was
given settles. -/
theorem rewrite_settles_iff {policy : Policy} {sql text : String} {supplied : Option Nat}
    {change : Option LimitChange} (h : assess policy sql supplied = .ok (text, change)) :
    ∃ pieces, statement (Scan.ofString sql) = .ok pieces ∧
      (boundRows policy (Scan.ofString text).pieces = (text.toList, none) ↔ Settles policy pieces) := by
  obtain ⟨pieces, hs, -, rfl⟩ := assess_ok h
  obtain ⟨hread, -, hsettled⟩ := readable_statement hs
  obtain ⟨-, -, -, -, -, hverb, -⟩ := statement_spec hs
  refine ⟨pieces, hs, ?_⟩
  rw [Scan.ofString, String.toList_ofList]
  exact settles_boundRows policy ⟨hread, hsettled⟩ hverb

/-- A limit in the place of `ALL` is left as it is. -/
theorem rewrite_settles_all :
    assess {} "SELECT a FROM t LIMIT ALL OFFSET 5" none =
        .ok ("SELECT a FROM t LIMIT 1000 OFFSET 5", some (.replaced "ALL" 1000)) ∧
      ∃ pieces, statement (Scan.ofString "SELECT a FROM t LIMIT ALL OFFSET 5") = .ok pieces ∧
        (boundRows {} (Scan.ofString "SELECT a FROM t LIMIT 1000 OFFSET 5").pieces =
          ("SELECT a FROM t LIMIT 1000 OFFSET 5".toList, none) ↔ Settles {} pieces) := by
  have hscan : Scan.ofString "SELECT a FROM t LIMIT ALL OFFSET 5" =
      scanWithin 40 "SELECT a FROM t LIMIT ALL OFFSET 5".toList := ofChars_eq_scanWithin 40 (by decide)
  have h : assess {} "SELECT a FROM t LIMIT ALL OFFSET 5" none =
      .ok ("SELECT a FROM t LIMIT 1000 OFFSET 5", some (.replaced "ALL" 1000)) := by
    unfold assess
    rw [hscan]
    decide +kernel
  exact ⟨h, rewrite_settles_iff h⟩

/-- A limit in the place of `NULL` in front of an operator is rewritten a second time. -/
theorem rewrite_unsettled :
    assess {} "SELECT * FROM t LIMIT NULL + 5" none =
        .ok ("SELECT * FROM t LIMIT 1000 + 5", some (.replaced "NULL" 1000)) ∧
      boundRows {} (Scan.ofString "SELECT * FROM t LIMIT 1000 + 5").pieces ≠
        ("SELECT * FROM t LIMIT 1000 + 5".toList, none) := by
  have hscan : Scan.ofString "SELECT * FROM t LIMIT NULL + 5" =
      scanWithin 40 "SELECT * FROM t LIMIT NULL + 5".toList := ofChars_eq_scanWithin 40 (by decide)
  have hrun : Scan.ofString "SELECT * FROM t LIMIT 1000 + 5" =
      scanWithin 40 "SELECT * FROM t LIMIT 1000 + 5".toList := ofChars_eq_scanWithin 40 (by decide)
  unfold assess
  rw [hscan, hrun]
  decide +kernel

end SpatialQuery.RowLimit
