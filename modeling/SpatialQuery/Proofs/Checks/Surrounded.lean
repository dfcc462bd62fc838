import SpatialQuery.Proofs.Checks.Literals
import SpatialQuery.Proofs.Lexical.Surrounding

/-!
What stands around a statement. Blanks, comments and semicolons in front of it, and blanks and a semicolon behind it,
change neither the verdict nor the text to run (`verdict_surrounded`).
-/

namespace SpatialQuery.Safety

open Token Lexical Validation RowLimit

/-! ## The statement in a text -/

section Found

variable {blanks blanks' : List Char} {t : Token} {ps qs : List Piece}

/-- A token outside of every statement is passed over. -/
theorem found_outside (ht : isOutside t = true) (hclosed : isUnclosed t = false) :
    found (⟨blanks, t⟩ :: ps) = found ps := by
  unfold found
  rw [List.dropWhile_cons_of_pos (by simp [ht]), List.any_cons, hclosed, Bool.false_or]

theorem found_blanks : (found (⟨blanks, t⟩ :: ps)).map headed = (found (⟨blanks', t⟩ :: ps)).map headed := by
  cases ht : isOutside t with
  | true =>
    unfold found
    rw [List.dropWhile_cons_of_pos (by simp [ht]), List.dropWhile_cons_of_pos (by simp [ht])]
    rfl
  | false =>
    have hpunct : t.isPunct ';' = false := (Bool.or_eq_false_iff.1 ht).2
    unfold found
    rw [List.dropWhile_cons_of_neg (by simp [ht]), List.dropWhile_cons_of_neg (by simp [ht])]
    simp only [List.any_cons, List.dropWhile_cons_of_pos, List.takeWhile_cons_of_pos, hpunct, Bool.not_false]
    split
    · rfl
    · split <;> rfl

theorem found_blank {c : Char} (hc : isSpace c = true) (cs : List Char) :
    (found (Scan.ofChars (c :: cs)).pieces).map headed = (found (Scan.ofChars cs).pieces).map headed := by
  rcases ofChars_blank hc cs with ⟨hcs, hccs⟩ | ⟨p, ps, hcs, hccs⟩
  · rw [hcs, hccs]
  · rw [hcs, hccs]
    exact found_blanks

theorem found_token {rest : List Char} (ht : Lexeme .scanned t rest) (houtside : isOutside t = true)
    (hclosed : isUnclosed t = false) :
    found (Scan.ofChars (t.text ++ rest)).pieces = found (Scan.ofChars rest).pieces := by
  have hnil : ∀ c ∈ ([] : List Char), isSpace c = true := by simp
  have happend := ofChars_append hnil ht
  rw [List.nil_append] at happend
  rw [happend]
  exact found_outside houtside hclosed

theorem found_noise {front : List Char} (h : Noise front) (rest : List Char) :
    (found (Scan.ofChars (front ++ rest)).pieces).map headed = (found (Scan.ofChars rest).pieces).map headed := by
  induction h with
  | nil => rfl
  | blank hc _ ih => exact (found_blank hc _).trans ih
  | semicolon _ ih =>
    rw [← ih]
    exact congrArg _ (found_token (lexeme_semicolon _) rfl rfl)
  | @lineComment body cs hbody _ ih =>
    have htoken := found_token (lexeme_comment hbody (cs ++ rest)) rfl rfl
    have hnewline := found_blank (show isSpace '\n' = true from rfl) (cs ++ rest)
    rw [← ih, ← hnewline]
    simpa using congrArg (Except.map headed) htoken
  | @blockComment body cs hbody _ ih =>
    rw [← ih]
    have hlexeme : Lexeme .scanned ⟨.blockComment, ['/', '*'] ++ body⟩ (cs ++ rest) :=
      .closed (o := .comment) trivial hbody
    simpa using congrArg (Except.map headed) (found_token hlexeme rfl rfl)

theorem isOpenEnded_iff : IsOpenEnded t ↔ t.kind = .lineComment ∨ isUnclosed t = true := by
  unfold IsOpenEnded isUnclosed
  split <;> simp_all

/-- How an open token at the end goes on makes no difference. -/
theorem found_open {p q : Piece} (hp : IsOpenEnded p.token) (hkind : q.token.kind = p.token.kind) :
    found (ps ++ [q]) = found (ps ++ [p]) := by
  have houtside : isOutside q.token = isOutside p.token := by simp only [isOutside, isComment, isPunct, hkind]
  have hunclosed : isUnclosed q.token = isUnclosed p.token := by simp only [isUnclosed, hkind]
  have hcomment : q.token.isComment = p.token.isComment := by simp only [isComment, hkind]
  have hword : ∀ {t : Token}, IsOpenEnded t → t.isAnyKeyword ["select", "with"] = false := fun ht =>
    isAnyKeyword_of_kind (by rcases ht with ht | ⟨what, ht⟩ <;> simp [ht]) _
  have hq : IsOpenEnded q.token := by rwa [IsOpenEnded, hkind]
  have hrejected : (isUnclosed p.token || p.token.isComment) = true := by
    rcases isOpenEnded_iff.1 hp with hp | hp
    · simp [isComment, hp]
    · simp [hp]
  unfold found
  rw [List.dropWhile_append, List.dropWhile_append]
  cases ps.dropWhile (isOutside ·.token) with
  | nil =>
    -- the token is the first one, and no statement begins with it
    cases hout : isOutside p.token with
    | true => simp [hout, houtside]
    | false => simp [hout, houtside, hword hp, hword hq]
  | cons verb rest =>
    -- the token is in the statement, which is rejected for it
    have hstacked : ∀ {r : Piece}, isUnclosed r.token = isUnclosed p.token → r.token.isComment = p.token.isComment →
        ((ps ++ [r]).any (isUnclosed ·.token) || (verb :: (rest ++ [r])).any (·.token.isComment)) = true := by
      intro r hru hrc
      rcases Bool.or_eq_true_iff.1 hrejected with h | h
      · simp [hru, h]
      · simp [hrc, h]
    simp only [List.isEmpty_cons, Bool.false_eq_true, if_false, List.cons_append, hstacked hunclosed hcomment,
      hstacked rfl rfl, Bool.true_or, if_true]

theorem found_semicolon (h : ∀ p ∈ ps, p.token.isPunct ';' = false) :
    found (ps ++ [⟨blanks, semicolon⟩]) = found ps := by
  have hkeep : ∀ qs : List Piece, (∀ p ∈ qs, p.token.isPunct ';' = false) →
      ∀ rs, (qs ++ rs).dropWhile (!·.token.isPunct ';') = rs.dropWhile (!·.token.isPunct ';') ∧
        (qs ++ rs).takeWhile (!·.token.isPunct ';') = qs ++ rs.takeWhile (!·.token.isPunct ';') := by
    intro qs hqs rs
    have hall : ∀ p ∈ qs, (!p.token.isPunct ';') = true := fun p hp => by simp [hqs p hp]
    exact ⟨List.dropWhile_append_of_pos hall, List.takeWhile_append_of_pos hall⟩
  unfold found
  rw [List.dropWhile_append]
  cases hdrop : ps.dropWhile (isOutside ·.token) with
  | nil => rfl
  | cons verb rest =>
    have hrest : ∀ p ∈ verb :: rest, p.token.isPunct ';' = false := fun p hp =>
      h p ((List.dropWhile_sublist _).mem (hdrop ▸ hp))
    have hnone := hkeep _ hrest []
    have hone := hkeep _ hrest [⟨blanks, semicolon⟩]
    rw [List.append_nil] at hnone
    simp only [List.isEmpty_cons, Bool.false_eq_true, if_false, List.cons_append] at hone ⊢
    rw [hone.1, hone.2, hnone.1, hnone.2]
    simp [isUnclosed, semicolon, isComment, isPunct]

theorem found_ending {cs ending : List Char} (h : ∀ p ∈ (Scan.ofChars cs).pieces, p.token.isPunct ';' = false)
    (he : IsEnding ending) : found (Scan.ofChars (cs ++ ending)).pieces = found (Scan.ofChars cs).pieces := by
  have hending := ofChars_ending (readable_ofChars cs) he
  rw [Scan.text_ofChars] at hending
  obtain ⟨qs, more, hpieces, hswallows, hmore⟩ := hending
  obtain ⟨hqs, hfound⟩ : (∀ q ∈ qs, q.token.isPunct ';' = false) ∧ found qs = found (Scan.ofChars cs).pieces := by
    rcases hswallows with rfl | ⟨init, p, t, hcs, rfl, hopen, hkind⟩
    · exact ⟨h, rfl⟩
    · rw [hcs] at h ⊢
      refine ⟨fun q hq => ?_, found_open hopen hkind⟩
      rcases List.mem_append.1 hq with hq | hq
      · exact h q (by simp [hq])
      · obtain rfl := List.mem_singleton.1 hq
        have hp := h p (by simp)
        rwa [isPunct, ← hkind] at hp
  rw [hpieces, ← hfound]
  rcases hmore with rfl | ⟨blanks, rfl⟩
  · rw [List.append_nil]
  · exact found_semicolon hqs

end Found

/-! ## The text to run -/

theorem limitClause_cons (t : Token) (ps : List Piece) :
    ∃ clause : LimitClause, ∀ blanks, limitClause ⟨blanks, t⟩ ps = .cons ⟨blanks, t⟩ clause := by
  cases ps with
  | nil => exact ⟨.computed, fun _ => rfl⟩
  | cons count behind =>
    by_cases hall : count.token.isAnyKeyword ["all", "null"] = true
    · exact ⟨.all [] count behind, fun _ => if_pos hall⟩
    by_cases hnumber : (count.token.isNumber && endsCount behind) = true
    · exact ⟨.literal [] count behind, fun _ => (if_neg hall).trans (if_pos hnumber)⟩
    · exact ⟨.computed, fun _ => (if_neg hall).trans (if_neg hnumber)⟩

theorem fetchClause_cons (t : Token) (ps : List Piece) :
    ∃ clause : LimitClause, ∀ blanks, fetchClause ⟨blanks, t⟩ ps = .cons ⟨blanks, t⟩ clause := by
  match ps with
  | [] | [_] => exact ⟨.computed, fun _ => rfl⟩
  | first :: count :: behind =>
    by_cases hrow : count.token.isAnyKeyword ["row", "rows"] = true
    · exact ⟨.singleRow, fun _ => if_pos hrow⟩
    by_cases hnumber : (count.token.isNumber && behind.head?.any (·.token.isAnyKeyword ["row", "rows"])) = true
    · exact ⟨.literal [first] count behind, fun _ => (if_neg hrow).trans (if_pos hnumber)⟩
    · exact ⟨.computed, fun _ => (if_neg hrow).trans (if_neg hnumber)⟩

/-- The first piece stands in front of the count, wherever the clause begins. -/
theorem findLimit_cons (t : Token) (ps : List Piece) :
    ∃ clause : Option LimitClause, ∀ blanks, findLimit 0 (⟨blanks, t⟩ :: ps) = clause.map (.cons ⟨blanks, t⟩) := by
  by_cases hopen : t.isPunct '(' = true
  · exact ⟨findLimit 1 ps, fun _ => by rw [findLimit, if_pos hopen]⟩
  by_cases hclose : t.isPunct ')' = true
  · exact ⟨findLimit 0 ps, fun _ => by rw [findLimit, if_neg hopen, if_pos hclose]⟩
  by_cases hlimit : t.isKeyword "limit" = true
  · obtain ⟨clause, h⟩ := limitClause_cons t ps
    exact ⟨some clause, fun blanks => by simp [findLimit, hopen, hclose, hlimit, h]⟩
  by_cases hfetch : t.isKeyword "fetch" = true
  · obtain ⟨clause, h⟩ := fetchClause_cons t ps
    exact ⟨some clause, fun blanks => by simp [findLimit, hopen, hclose, hlimit, hfetch, h]⟩
  · exact ⟨findLimit 0 ps, fun blanks => by simp [findLimit, hopen, hclose, hlimit, hfetch]⟩

theorem boundRows_blanks (policy : Policy) (blanks blanks' : List Char) (t : Token) (ps : List Piece) :
    boundRows policy (⟨blanks, t⟩ :: ps) = boundRows policy (⟨blanks', t⟩ :: ps) := by
  obtain ⟨clause, h⟩ := findLimit_cons t ps
  rw [boundRows, boundRows, h, h]
  rcases clause with _ | _ | _ | _ | _ <;> rfl

theorem boundRows_headed (policy : Policy) {ps qs : List Piece} (h : headed ps = headed qs) :
    boundRows policy ps = boundRows policy qs := by
  cases ps with
  | nil =>
    cases qs with
    | nil => rfl
    | cons q qs => cases h
  | cons p ps =>
    cases qs with
    | nil => cases h
    | cons q qs =>
      obtain ⟨htoken, rfl⟩ := List.cons.inj h
      obtain ⟨blanks, t⟩ := p
      obtain ⟨blanks', t'⟩ := q
      cases htoken
      exact boundRows_blanks policy blanks blanks' t ps

/-- Texts with the same statement are rejected for reasons with the same code, or the same text is run for them. -/
theorem assess_of_found (policy : Policy) (supplied : Option Nat) {sql sql' : String}
    (h : (found (Scan.ofString sql).pieces).map headed = (found (Scan.ofString sql').pieces).map headed) :
    (∃ r r' : Rejection, assess policy sql supplied = .error r ∧ assess policy sql' supplied = .error r' ∧
      r.code = r'.code) ∨ assess policy sql supplied = assess policy sql' supplied := by
  rw [← found_pieces, ← found_pieces] at h
  cases hs : statement (Scan.ofString sql) with
  | error r =>
    cases hs' : statement (Scan.ofString sql') with
    | error r' =>
      rw [hs, hs'] at h
      exact .inl ⟨r, r', by rw [assess, hs]; rfl, by rw [assess, hs']; rfl, Except.error.inj h⟩
    | ok pieces' =>
      rw [hs, hs'] at h
      cases h
  | ok pieces =>
    cases hs' : statement (Scan.ofString sql') with
    | error r' =>
      rw [hs, hs'] at h
      cases h
    | ok pieces' =>
      rw [hs, hs'] at h
      have hheaded : headed pieces = headed pieces' := Except.ok.inj h
      have htokens : pieces.map Piece.token = pieces'.map Piece.token := by
        rw [← tokens_headed, hheaded, tokens_headed]
      refine .inr ?_
      rw [assess_eq policy supplied hs, assess_eq policy supplied hs', htokens, boundRows_headed policy hheaded]

/-! ## The verdict -/

theorem headed_surrounded {front ending : List Char} (hfront : Noise front) (hending : IsEnding ending) {sql : String}
    (hsql : ∀ t ∈ (Scan.ofString sql).tokens, t.isPunct ';' = false) :
    (found (Scan.ofString (String.ofList (front ++ sql.toList ++ ending))).pieces).map headed =
      (found (Scan.ofString sql).pieces).map headed := by
  have hpieces : ∀ p ∈ (Scan.ofChars sql.toList).pieces, p.token.isPunct ';' = false := fun p hp =>
    hsql _ (List.mem_map_of_mem hp)
  rw [Scan.ofString, Scan.ofString, String.toList_ofList, List.append_assoc, found_noise hfront,
    found_ending hpieces hending]

/-- What stands around a statement changes neither the outcome, nor the codes of the reasons, nor the text to run. -/
theorem verdict_surrounded {front ending : List Char} (hfront : Noise front) (hending : IsEnding ending) {sql : String}
    (hsql : ∀ t ∈ (Scan.ofString sql).tokens, t.isPunct ';' = false) (policy : Policy)
    (supplied : Option Nat) :
    let noisy := String.ofList (front ++ sql.toList ++ ending)
    (validate policy noisy supplied).outcome = (validate policy sql supplied).outcome ∧
      (validate policy noisy supplied).reasons.map Prod.fst = (validate policy sql supplied).reasons.map Prod.fst ∧
        ∀ text change, assess policy noisy supplied = .ok (text, change) ↔
          assess policy sql supplied = .ok (text, change) := by
  intro noisy
  rcases assess_of_found policy supplied (headed_surrounded hfront hending hsql) with ⟨r, r', hr, hr', hcode⟩ | heq
  · rw [validate, validate, hr, hr']
    exact ⟨rfl, congrArg ([·]) hcode, fun text change => by simp⟩
  · rw [validate, validate, heq]
    exact ⟨rfl, rfl, fun _ _ => Iff.rfl⟩

/-- The limit of a statement between a nested comment and a semicolon is lowered as it is without them. -/
theorem verdict_surrounded_lowered :
    let front := "/* a /* b */ */ ;-- x\n".toList
    let ending := " ; \n".toList
    let sql := "SELECT a FROM t LIMIT 5000"
    Noise front ∧ IsEnding ending ∧ (∀ t ∈ (Scan.ofString sql).tokens, t.isPunct ';' = false) ∧
      assess { maxLimit := some 100 } (String.ofList (front ++ sql.toList ++ ending)) none =
        .ok ("SELECT a FROM t LIMIT 100", some (.lowered 5000 100)) := by
  intro front ending sql
  have hscan : Scan.ofString sql = scanWithin 30 sql.toList := ofChars_eq_scanWithin 30 (by decide)
  have hsql : ∀ t ∈ (Scan.ofString sql).tokens, t.isPunct ';' = false := by
    rw [hscan]
    decide +kernel
  have hcomment : closeComment? 0 " a /* b */ */".toList = some (" a /* b */ */".toList, []) := by decide +kernel
  have hline : '\n' ∉ " x".toList := by simp
  have hfront : Noise front :=
    .blockComment (closeComment?_sound hcomment) (.blank rfl (.semicolon (.lineComment hline .nil)))
  have hending : IsEnding ending := ⟨by simp [ending, isSpace], by decide⟩
  have hrun : assess { maxLimit := some 100 } sql none =
      .ok ("SELECT a FROM t LIMIT 100", some (.lowered 5000 100)) := by
    unfold assess
    rw [hscan]
    decide +kernel
  exact ⟨hfront, hending, hsql, ((verdict_surrounded hfront hending hsql _ none).2.2 _ _).2 hrun⟩

end SpatialQuery.Safety
