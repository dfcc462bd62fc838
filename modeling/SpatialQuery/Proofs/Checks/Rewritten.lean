import SpatialQuery.Proofs.Checks.ReadOnly
import SpatialQuery.Proofs.Limit.Bound

/-!
What is run only reads, as what was checked does. Every change to the limit but one adds tokens that
may stand anywhere, or puts a number in the place of a number (`Edit`); a limit in the place of `ALL`
or `NULL` is the one exception, since it may run into what stands behind the word.
-/

namespace SpatialQuery.Safety

open Token Lexical Validation RowLimit

/-- What a change of the limit does to the tokens of a statement. -/
inductive Edit (ts : List Token) : Option LimitChange → List Token → Prop
  | kept : Edit ts none ts
  | appended (limit : Nat) : Edit ts (some (.appended limit)) (ts ++ [limitWord, countToken limit])
  | bounded (limit : Nat) : Edit ts (some (.bounded limit))
      (openingPieces.map Piece.token ++ (ts ++ (closingPieces limit).map Piece.token))
  | lowered {before behind : List Token} {count : Token} (n limit : Nat) :
      ts = before ++ count :: behind → count.isNumber = true →
        Edit ts (some (.lowered n limit)) (before ++ countToken limit :: behind)
  /-- Nothing is said of these tokens. -/
  | replaced (word : String) (limit : Nat) (us : List Token) : Edit ts (some (.replaced word limit)) us

theorem edit_boundRows (policy : Policy) {pieces : List Piece} (h : Valid pieces) :
    Edit (tokensOf pieces) (boundRows policy pieces).2
      (Scan.ofChars (boundRows policy pieces).1).tokens := by
  have hkept : Edit (tokensOf pieces) none (Scan.ofChars (statementText pieces)).tokens := by
    rw [tokens_statement h]
    exact .kept
  unfold boundRows
  rw [findLimit_eq]
  cases hc : firstClause 0 pieces with
  | none =>
    dsimp only [Option.map_none]
    rw [tokens_appended h.readable h.settled]
    exact .appended _
  | some c =>
    rw [Option.map_some]
    cases hl : clauseOf c.keyword c.behind with
    | all before count rest => exact .replaced _ _ _
    | singleRow => exact hkept
    | computed =>
      dsimp only [under]
      rw [tokens_wrapped h.readable h.settled]
      exact .bounded _
    | literal before count rest =>
      obtain ⟨hsplit, -, hnum⟩ := split_literal hc hl
      dsimp only [under]
      cases hn : Text.readNat64 count.token.text with
      | error e => exact hkept
      | ok n =>
        cases policy.maxLimit with
        | none => exact hkept
        | some max =>
          dsimp only
          split
          · rw [tokens_literal h hc hl hn]
            refine .lowered n max ?_ hnum
            rw [hsplit, tokensOf, List.map_append, List.map_cons]
            rfl
          · exact hkept

/-! ## New tokens -/

theorem allowed_of_kind {policy : Policy} {t : Token} (hs : Settled t) (hsingle : t.kind ≠ .punct ';')
    (hword : t.kind ≠ .word) : Allowed policy t where
  settled := hs
  single := by simpa [isPunct] using hsingle
  keyword := isAnyKeyword_of_kind hword _
  into := by simp [isKeyword, hword]
  union := fun _ => by simp [isKeyword, hword]

theorem allowed_number (policy : Policy) {t : Token} (h : t.isNumber = true) : Allowed policy t := by
  have hk : t.kind = .number := eq_of_beq h
  refine allowed_of_kind ⟨?_, ?_⟩ ?_ ?_ <;> simp [hk, isComment]

theorem harmless_of {t next : Token} (ht : t.isKeyword "for" = false) (hn : next.isPunct '(' = false) :
    Harmless t next where
  lock h := by simp [ht] at h
  call h := by simp [hn] at h

theorem harmless_number_left {t : Token} (h : t.isNumber = true) (next : Token) : Harmless t next := by
  have hk : t.kind = .number := eq_of_beq h
  refine ⟨fun hf => ?_, fun _ name hn => ?_⟩
  · rw [isKeyword_of_isNumber h] at hf
    cases hf
  · rw [name?, hk] at hn
    cases hn

theorem harmless_right {next : Token} (hword : next.kind ≠ .word) (hp : next.kind ≠ .punct '(')
    (t : Token) : Harmless t next where
  lock _ := isAnyKeyword_of_kind hword _
  call h := absurd (eq_of_beq h) hp

theorem allowed_limit (policy : Policy) (n : Nat) :
    ∀ t ∈ [limitWord, countToken n], Allowed policy t := by
  intro t ht
  simp only [List.mem_cons, List.not_mem_nil, or_false] at ht
  rcases ht with rfl | rfl
  · exact ⟨⟨nofun, rfl⟩, rfl, rfl, rfl, fun _ => rfl⟩
  · exact allowed_number policy (isNumber_countToken n)

theorem harmless_limit (n : Nat) : [limitWord, countToken n].IsChain Harmless :=
  .cons_cons (harmless_of rfl rfl) (.singleton _)

theorem readOnly_opening (policy : Policy) : ReadOnly policy (openingPieces.map Piece.token) := by
  refine ⟨⟨_, rfl, rfl⟩, fun t ht => ?_, ?_⟩
  · simp only [openingPieces, List.map_cons, List.map_nil, List.mem_cons, List.not_mem_nil, or_false] at ht
    rcases ht with rfl | rfl | rfl | rfl <;> exact ⟨⟨nofun, rfl⟩, rfl, rfl, rfl, fun _ => rfl⟩
  · refine .cons_cons (harmless_of rfl rfl) (.cons_cons (harmless_of rfl rfl)
      (.cons_cons ⟨nofun, fun _ name hn => ?_⟩ (.singleton _)))
    obtain rfl : "from" = name := Option.some.inj hn
    decide

theorem allowed_subquery (policy : Policy) (blanks : List Char) (label : String) (n : Nat) :
    ∀ t ∈ (subqueryPieces blanks label n).map Piece.token, Allowed policy t := by
  intro t ht
  simp only [subqueryPieces, limitPieces, List.map_cons, List.map_nil, List.mem_cons, List.not_mem_nil,
    or_false] at ht
  rcases ht with rfl | rfl | rfl | ht
  case inr.inr.inr => exact allowed_limit policy n t (by simpa using ht)
  all_goals exact ⟨⟨by rintro _ ⟨⟩, rfl⟩, rfl, rfl, rfl, fun _ => rfl⟩

theorem harmless_subquery (blanks : List Char) (label : String) (n : Nat) :
    ((subqueryPieces blanks label n).map Piece.token).IsChain Harmless :=
  .cons_cons (harmless_of rfl rfl) (.cons_cons (harmless_of rfl rfl)
    (.cons_cons (harmless_of rfl rfl) (harmless_limit n)))

/-- A statement that only reads may be made a subquery. -/
theorem ReadOnly.subquery {policy : Policy} {ts : List Token} (h : ReadOnly policy ts) (blanks : List Char)
    (label : String) (n : Nat) : ReadOnly policy
      (openingPieces.map Piece.token ++ (ts ++ (subqueryPieces blanks label n).map Piece.token)) := by
  have hclosed : ReadOnly policy (ts ++ (subqueryPieces blanks label n).map Piece.token) := by
    refine h.append (allowed_subquery policy blanks label n) (harmless_subquery blanks label n) fun t _ u hu => ?_
    obtain rfl : closeParen = u := Option.some.inj hu
    exact harmless_right (by simp [closeParen]) (by simp [closeParen]) t
  refine (readOnly_opening policy).append hclosed.allowed hclosed.harmless fun t ht u _ => ?_
  obtain rfl : openParen = t := Option.some.inj ht
  exact ⟨by rintro ⟨⟩, fun _ => by rintro _ ⟨⟩⟩

/-! ## The statement that is run -/

/-- The placeholders, in their order. -/
def placeholders (ts : List Token) : List Token :=
  ts.filter (·.placeholder?.isSome)

@[simp] theorem placeholders_append (ts us : List Token) :
    placeholders (ts ++ us) = placeholders ts ++ placeholders us :=
  List.filter_append ..

theorem placeholders_cons_number {t : Token} (h : t.isNumber = true) (ts : List Token) :
    placeholders (t :: ts) = placeholders ts := by
  have hk : t.kind = .number := eq_of_beq h
  simp [placeholders, placeholder?, hk]

/-- A number takes the place of a number. -/
theorem ReadOnly.recount {policy : Policy} {before behind : List Token} {count used : Token}
    (h : ReadOnly policy (before ++ count :: behind)) (hn : count.isNumber = true)
    (hu : used.isNumber = true) : ReadOnly policy (before ++ used :: behind) := by
  have hkind : used.kind = .number := eq_of_beq hu
  have hmem : ∀ t ∈ before ++ used :: behind, t ∈ before ++ count :: behind ∨ t = used := by
    intro t ht
    simp only [List.mem_append, List.mem_cons] at ht ⊢
    tauto
  -- The verb comes first and is a keyword, so the count stands behind it.
  have hbefore : before ≠ [] := by
    rintro rfl
    obtain ⟨verb, hverb, hk⟩ := h.verb
    obtain rfl : count = verb := Option.some.inj hverb
    rw [isAnyKeyword_of_isNumber hn] at hk
    cases hk
  refine ⟨?_, fun t ht => ?_, ?_⟩
  · obtain ⟨verb, hverb, hk⟩ := h.verb
    refine ⟨verb, ?_, hk⟩
    rwa [List.head?_append_of_ne_nil _ hbefore] at hverb ⊢
  · rcases hmem t ht with ht | rfl
    · exact h.allowed t ht
    · exact allowed_number policy hu
  · obtain ⟨hfront, hback, -⟩ := List.isChain_append.1 h.harmless
    refine hfront.append (List.isChain_cons.2
      ⟨fun u _ => harmless_number_left hu u, (List.isChain_cons.1 hback).2⟩) fun t _ u hmem => ?_
    obtain rfl : used = u := Option.some.inj hmem
    exact harmless_right (by simp [hkind]) (by simp [hkind]) t

/-- Every change but the exception keeps a statement one that only reads, with the same placeholders. -/
theorem Edit.readOnly {policy : Policy} {ts us : List Token} {change : Option LimitChange}
    (he : Edit ts change us) (h : ReadOnly policy ts)
    (hc : ∀ word limit, change ≠ some (.replaced word limit)) :
    ReadOnly policy us ∧ placeholders us = placeholders ts := by
  cases he with
  | kept => exact ⟨h, rfl⟩
  | appended limit =>
    refine ⟨h.append (allowed_limit policy limit) (harmless_limit limit) fun t _ u hu => ?_, ?_⟩
    · obtain rfl : limitWord = u := Option.some.inj hu
      exact ⟨fun _ => rfl, by rintro ⟨⟩⟩
    · rw [placeholders_append]
      exact List.append_nil _
  | bounded limit =>
    refine ⟨h.subquery [] "geoview_limited" limit, ?_⟩
    rw [placeholders_append, placeholders_append]
    exact List.append_nil _
  | @lowered before behind count n limit hts hn =>
    subst hts
    refine ⟨h.recount hn (isNumber_countToken limit), ?_⟩
    rw [placeholders_append, placeholders_append, placeholders_cons_number hn,
      placeholders_cons_number (isNumber_countToken limit)]
  | replaced word limit => exact absurd rfl (hc word limit)

/-- What stands around a statement holds no placeholder. -/
theorem placeholders_statement {s : Scan} {pieces : List Piece} (h : statement s = .ok pieces) :
    placeholders s.tokens = placeholders (tokensOf pieces) := by
  obtain ⟨before, behind, hpieces, hbefore, hbehind, -, -⟩ := statement_spec h
  have hnone : ∀ ps : List Piece, (∀ p ∈ ps, isOutside p.token = true) →
      placeholders (tokensOf ps) = [] := by
    intro ps hps
    refine List.filter_eq_nil_iff.2 fun t ht => ?_
    obtain ⟨p, hp, rfl⟩ := List.mem_map.1 ht
    have hout := hps p hp
    cases hk : p.token.kind with
    | placeholder n => simp [isOutside, isComment, isPunct, hk] at hout
    | _ => simp [placeholder?, hk]
  have htokens : s.tokens = tokensOf before ++ (tokensOf pieces ++ tokensOf behind) := by
    rw [Scan.tokens, hpieces, List.map_append, List.map_append]
    rfl
  rw [htokens, placeholders_append, placeholders_append, hnone before hbefore, hnone behind hbehind,
    List.nil_append, List.append_nil]

/-- The text to run only reads and has the placeholders of the text that was given, unless a limit took
the place of a word. -/
theorem rewritten_readOnly {policy : Policy} {sql text : String} {supplied : Option Nat}
    {change : Option LimitChange} (h : assess policy sql supplied = .ok (text, change))
    (hc : ∀ word limit, change ≠ some (.replaced word limit)) :
    ReadOnly policy (Scan.ofString text).tokens ∧
      placeholders (Scan.ofString text).tokens = placeholders (Scan.ofString sql).tokens := by
  obtain ⟨pieces, hs, hchecks, hout⟩ := assess_ok_iff.1 h
  obtain ⟨rfl, rfl⟩ := Prod.mk.inj hout
  obtain ⟨hread, -, hsettled⟩ := readable_statement hs
  have hedit := edit_boundRows policy ⟨hread, hsettled⟩
  rw [placeholders_statement hs, Scan.ofString, String.toList_ofList]
  exact hedit.readOnly (readOnly_of_checks hs hchecks) hc

/-- A statement with a computed limit is run inside of one with a literal limit. -/
theorem rewritten_readOnly_bounded :
    let sql := "SELECT a FROM t WHERE b = $1 LIMIT $2"
    let text := "SELECT * FROM (SELECT a FROM t WHERE b = $1 LIMIT $2) AS \"geoview_limited\" LIMIT 1000"
    assess {} sql (some 2) = .ok (text, some (.bounded 1000)) ∧
      ReadOnly {} (Scan.ofString text).tokens ∧
        placeholders (Scan.ofString text).tokens = placeholders (Scan.ofString sql).tokens := by
  intro sql text
  have hscan : Scan.ofString sql = scanWithin 40 sql.toList := ofChars_eq_scanWithin 40 (by decide)
  have h : assess {} sql (some 2) = .ok (text, some (.bounded 1000)) := by
    unfold assess
    rw [hscan]
    decide +kernel
  exact ⟨h, rewritten_readOnly h nofun⟩

end SpatialQuery.Safety
