import SpatialQuery.Proofs.Checks.Rewritten
import SpatialQuery.Proofs.Limit.Fixed

/-!
The placeholders of a statement that is run with parameters. Only the largest index is compared with the number of
the parameters, so each of them is used exactly if the indices have no gap (`placeholders_exact_iff`). A limit in the
place of a word may run into a point behind it; then the placeholders are those behind the longer number.
-/

namespace SpatialQuery.Safety

open Token Lexical Validation RowLimit

/-! ## Indices -/

/-- The number behind a dollar sign, however large it is. -/
def index? (t : Token) : Option Nat :=
  match t.kind with
  | .placeholder _ => some (Nat.ofDigitChars 10 (t.text.drop 1) 0)
  | _ => none

def indices (ts : List Token) : List Nat :=
  ts.filterMap index?

/-- The indices of so many parameters. -/
def Exactly (n : Nat) (is : List Nat) : Prop :=
  ∀ i, i ∈ is ↔ 1 ≤ i ∧ i ≤ n

/-- No index below the number of parameters is left out, and none is too large for the check. -/
structure Gapless (n : Nat) (is : List Nat) : Prop where
  used : ∀ i, 1 ≤ i → i < n → i ∈ is
  small : ∀ i ∈ is, i ≤ maxPlaceholder

section Indices

variable {ts us : List Token} {t : Token} {n : Nat}

theorem indices_placeholders (ts : List Token) : indices (placeholders ts) = indices ts := by
  rw [indices, placeholders, List.filterMap_filter]
  refine List.filterMap_congr fun t _ => ?_
  cases hk : t.kind <;> simp [index?, placeholder?, hk]

theorem indices_congr (h : placeholders ts = placeholders us) : indices ts = indices us := by
  rw [← indices_placeholders ts, h, indices_placeholders]

/-- The scanner knows an index up to the largest one. -/
theorem placeholder?_eq {rest : List Char} (h : Lexeme .scanned t rest) :
    t.placeholder? = (index? t).map (min · maxPlaceholder) := by
  cases h with
  | @closed o => cases o <;> rfl
  | _ => rfl

theorem placeholder?_tokensOf {ps : List Piece} {trailing : List Char} (h : Readable ⟨ps, trailing⟩) :
    (tokensOf ps).filterMap placeholder? = (indices (tokensOf ps)).map (min · maxPlaceholder) := by
  rw [indices, List.map_filterMap]
  refine List.filterMap_congr fun t ht => ?_
  obtain ⟨p, hp, rfl⟩ := List.mem_map.1 ht
  obtain ⟨rest, hl⟩ := lexeme_of_readable h hp
  exact placeholder?_eq hl

theorem highest_spec {is : List Nat} (h : is.foldl max 0 = n) : (∀ i ∈ is, i ≤ n) ∧ (n = 0 ∨ n ∈ is) := by
  rw [List.foldl_max, Nat.zero_max] at h
  cases hmax : is.max? with
  | none =>
    obtain rfl := List.max?_eq_none_iff.1 hmax
    exact ⟨by simp, .inl h.symm⟩
  | some m =>
    obtain ⟨hmem, hle⟩ := List.max?_eq_some_iff.1 hmax
    rw [hmax] at h
    obtain rfl : m = n := h
    exact ⟨hle, .inr hmem⟩

theorem checkParameters_ok (h : checkParameters ts (some n) = .ok ()) :
    0 ∉ ts.filterMap placeholder? ∧ (ts.filterMap placeholder?).foldl max 0 = n := by
  unfold checkParameters at h
  dsimp only at h
  split at h
  · cases h
  · rename_i hcond
    simpa using hcond

/-- The indices that pass the check are those of the parameters if they have no gap. -/
theorem exactly_iff {ps : List Piece} {trailing : List Char} (hps : Readable ⟨ps, trailing⟩)
    (h : checkParameters (tokensOf ps) (some n) = .ok ()) :
    Exactly n (indices (tokensOf ps)) ↔ Gapless n (indices (tokensOf ps)) := by
  obtain ⟨hzero, hhighest⟩ := checkParameters_ok h
  rw [placeholder?_tokensOf hps] at hzero hhighest
  obtain ⟨hle, hattained⟩ := highest_spec hhighest
  have hlargest : n ≤ maxPlaceholder := by
    rcases hattained with rfl | hn
    · exact Nat.zero_le _
    · obtain ⟨i, -, rfl⟩ := List.mem_map.1 hn
      exact Nat.min_le_right ..
  constructor
  · intro hexact
    exact ⟨fun i hpos hlt => (hexact i).2 ⟨hpos, Nat.le_of_lt hlt⟩, fun i hi => ((hexact i).1 hi).2.trans hlargest⟩
  · rintro ⟨hused, hsmall⟩ i
    -- an index that is not too large is known to the check
    have hknown : ∀ {j}, j ∈ indices (tokensOf ps) → j ∈ (indices (tokensOf ps)).map (min · maxPlaceholder) :=
      fun hj => List.mem_map.2 ⟨_, hj, Nat.min_eq_left (hsmall _ hj)⟩
    constructor
    · intro hi
      refine ⟨Nat.one_le_iff_ne_zero.2 ?_, hle i (hknown hi)⟩
      rintro rfl
      exact hzero (hknown hi)
    · rintro ⟨hpos, hin⟩
      rcases Nat.lt_or_eq_of_le hin with hlt | rfl
      · exact hused i hpos hlt
      · rcases hattained with hnone | hn
        · omega
        · obtain ⟨j, hj, hji⟩ := List.mem_map.1 hn
          rw [Nat.min_eq_left (hsmall j hj)] at hji
          exact hji ▸ hj

end Indices

/-! ## Rewritten limits -/

section Rewritten

variable {policy : Policy} {pieces before rest : List Piece} {count : Piece}

theorem split_findLimit (h : Valid pieces) (hl : findLimit 0 pieces = some (.all before count rest)) :
    pieces = before ++ count :: rest ∧ before ≠ [] ∧ count.token.kind = .word ∧
      Follows (before.map Piece.token) count.token := by
  rw [findLimit_eq] at hl
  obtain ⟨c, hc, hunder⟩ := Option.map_eq_some_iff.1 hl
  cases hall : clauseOf c.keyword c.behind with
  | all before' count' rest' =>
    rw [hall] at hunder
    cases hunder
    obtain ⟨hsplit, hkeyword, hfollows⟩ := split_all h hc hall
    obtain ⟨-, -, hword⟩ := clauseOf_all hall
    exact ⟨hsplit, by simp [hkeyword], word_of_isAnyKeyword hword, hfollows⟩
  | _ =>
    rw [hall] at hunder
    cases hunder

/-- Only what stands behind the word may be read in another way. -/
theorem tokens_replaced (h : Valid pieces) (hl : findLimit 0 pieces = some (.all before count rest)) (n : Nat) :
    (Scan.ofChars (withCount before count rest n)).tokens =
      tokensOf before ++ (Scan.ofChars (withCount [] count rest n)).tokens := by
  obtain ⟨hsplit, hne, -, hfollows⟩ := split_findLimit h hl
  have hread := h.readable
  have hsettled := h.settled
  rw [hsplit] at hread hsettled
  rw [scan_withCount hread hne hsettled hfollows, Scan.tokens, List.map_append, tokens_headed]
  rfl

/-- Without a point behind the word, the number is a token of its own. -/
theorem lexeme_countToken (n : Nat) {cs : List Char} (h : ∀ c ∈ cs.head?, isWordPart c = false)
    (hpoint : cs.head? ≠ some '.') : Lexeme .scanned (countToken n) cs := by
  obtain ⟨more, hsplit, hmore⟩ := splitNumber_ofNat n h
  have happend := splitNumber_append false false false (Text.ofNat n ++ cs)
  rw [hsplit, List.append_assoc, List.append_cancel_left_eq] at happend
  -- no part of a word stands behind the digits, so the number goes on with a point or not at all
  have hnil : more = [] := by
    cases more with
    | nil => rfl
    | cons c more =>
      obtain rfl := hmore c rfl
      rw [← happend] at hpoint
      exact absurd rfl hpoint
  rw [hnil, List.nil_append] at happend
  rw [hnil, List.append_nil] at hsplit
  exact lexeme_number_iff.2 ⟨numeral_ofNat n, Prod.ext hsplit happend⟩

theorem tokens_apart (h : Valid pieces) (hl : findLimit 0 pieces = some (.all before count rest))
    (hpoint : (rest.flatMap Piece.text).head? ≠ some '.') (n : Nat) :
    (Scan.ofChars (withCount [] count rest n)).tokens = countToken n :: tokensOf rest := by
  obtain ⟨hsplit, hne, hword, -⟩ := split_findLimit h hl
  have hread := h.readable
  rw [hsplit, headed_append hne] at hread
  obtain ⟨hblanks, hlexeme, hrest⟩ := readable_cons.1 (readable_of_append hread)
  have htext : Scan.text ⟨rest, []⟩ = rest.flatMap Piece.text := List.append_nil _
  have hnumber : Lexeme .scanned (countToken n) (Scan.text ⟨rest, []⟩) :=
    lexeme_countToken n (head?_of_word hlexeme hword) (by rwa [htext])
  have hscan := ofChars_text (s := ⟨⟨count.blanks, countToken n⟩ :: rest, []⟩)
    (readable_cons.2 ⟨hblanks, hnumber, hrest⟩)
  have hcs : Scan.text ⟨⟨count.blanks, countToken n⟩ :: rest, []⟩ = withCount [] count rest n := by
    rw [text_cons, htext]
    simp [withCount, statementText, countToken]
  rw [← hcs, hscan]
  rfl

theorem placeholders_apart (h : Valid pieces) (hl : findLimit 0 pieces = some (.all before count rest))
    (hpoint : (rest.flatMap Piece.text).head? ≠ some '.') (n : Nat) :
    placeholders (Scan.ofChars (withCount before count rest n)).tokens = placeholders (tokensOf pieces) := by
  obtain ⟨hsplit, -, hword, -⟩ := split_findLimit h hl
  have hcount : placeholders [count.token] = [] := by simp [placeholders, placeholder?, hword]
  have hpieces : tokensOf pieces = tokensOf before ++ ([count.token] ++ tokensOf rest) := by
    rw [hsplit, tokensOf, List.map_append]
    rfl
  rw [tokens_replaced h hl, tokens_apart h hl hpoint, hpieces, placeholders_append,
    placeholders_cons_number (isNumber_countToken n), placeholders_append, placeholders_append, hcount,
    List.nil_append]

theorem change_ne_replaced (hl : ∀ before count rest, findLimit 0 pieces ≠ some (.all before count rest))
    (word : String) (limit : Nat) : (boundRows policy pieces).2 ≠ some (.replaced word limit) := by
  unfold boundRows
  split
  · nofun
  · rename_i hall
    exact absurd hall (hl _ _ _)
  · nofun
  · nofun
  · split
    · split <;> nofun
    · nofun

/-- The condition on a statement with so many parameters: its indices have no gap. If a limit runs into a point, the
indices are those that are read then. -/
def Complete (policy : Policy) (n : Nat) (pieces : List Piece) : Prop :=
  match findLimit 0 pieces with
  | some (.all before count rest) =>
    if (rest.flatMap Piece.text).head? = some '.' then
      Exactly n (indices (tokensOf before ++ (Scan.ofChars (withCount [] count rest policy.limitToAdd)).tokens))
    else Gapless n (indices (tokensOf pieces))
  | _ => Gapless n (indices (tokensOf pieces))

theorem exactly_boundRows {s : Scan} {n : Nat} (h : Valid pieces) (hs : statement s = .ok pieces)
    (hchecks : checkTokens policy (tokensOf pieces) (some n) = .ok ()) :
    Exactly n (indices (Scan.ofChars (boundRows policy pieces).1).tokens) ↔ Complete policy n pieces := by
  obtain ⟨-, -, hparameters, -⟩ := checkTokens_iff.1 hchecks
  rw [← tokensOf_headed] at hparameters
  have hgapless := exactly_iff h.readable hparameters
  rw [tokensOf_headed] at hgapless
  -- a limit that replaces no word leaves the placeholders as they were checked
  have hkept : (∀ before count rest, findLimit 0 pieces ≠ some (.all before count rest)) →
      (Exactly n (indices (Scan.ofChars (boundRows policy pieces).1).tokens) ↔
        Gapless n (indices (tokensOf pieces))) := by
    intro hl
    obtain ⟨-, hplaceholders⟩ := (edit_boundRows policy h).readOnly (readOnly_of_checks hs hchecks)
      (change_ne_replaced hl)
    rw [indices_congr hplaceholders, hgapless]
  unfold Complete
  cases hl : findLimit 0 pieces with
  | none => exact hkept (by simp [hl])
  | some l =>
    cases l with
    | all before count rest =>
      have hrun : (boundRows policy pieces).1 = withCount before count rest policy.limitToAdd := by
        simp [boundRows, hl]
      dsimp only
      split
      · rw [hrun, tokens_replaced h hl]
      · rename_i hpoint
        rw [hrun, indices_congr (placeholders_apart h hl hpoint _), hgapless]
    | _ => exact hkept (by simp [hl])

end Rewritten

/-- The indices in what is run with parameters are those of the parameters exactly if the statement that was given
is complete. -/
theorem placeholders_exact_iff {policy : Policy} {sql text : String} {n : Nat} {change : Option LimitChange}
    (h : assess policy sql (some n) = .ok (text, change)) :
    ∃ pieces, statement (Scan.ofString sql) = .ok pieces ∧
      (Exactly n (indices (Scan.ofString text).tokens) ↔ Complete policy n pieces) := by
  obtain ⟨pieces, hs, hchecks, rfl⟩ := assess_ok h
  obtain ⟨hread, -, hsettled⟩ := readable_statement hs
  refine ⟨pieces, hs, ?_⟩
  rw [Scan.ofString, String.toList_ofList]
  exact exactly_boundRows ⟨hread, hsettled⟩ hs hchecks

/-- Two parameters that are used the other way round. -/
theorem placeholders_exact_swapped :
    let sql := "SELECT a FROM t WHERE b = $2 AND c = $1"
    let text := "SELECT a FROM t WHERE b = $2 AND c = $1 LIMIT 1000"
    assess {} sql (some 2) = .ok (text, some (.appended 1000)) ∧ Exactly 2 (indices (Scan.ofString text).tokens) := by
  intro sql text
  have hscan : Scan.ofString sql = scanWithin 60 sql.toList := ofChars_eq_scanWithin 60 (by decide)
  have h : assess {} sql (some 2) = .ok (text, some (.appended 1000)) := by
    unfold assess
    rw [hscan]
    decide +kernel
  obtain ⟨pieces, hs, hiff⟩ := placeholders_exact_iff h
  refine ⟨h, hiff.2 ?_⟩
  have hread : (statement (scanWithin 60 sql.toList)).toOption.map
      (fun ps => (findLimit 0 ps, indices (tokensOf ps))) = some (none, [2, 1]) := by decide +kernel
  rw [← hscan, hs] at hread
  obtain ⟨hlimit, hindices⟩ := Prod.mk.inj (Option.some.inj hread)
  rw [Complete, hlimit]
  dsimp only
  rw [hindices]
  refine ⟨fun i hpos hlt => ?_, by decide⟩
  obtain rfl : i = 1 := by omega
  decide

/-- The first of two parameters is left out. -/
theorem placeholders_gap :
    let sql := "SELECT a FROM t WHERE b = $2 LIMIT 1"
    assess {} sql (some 2) = .ok (sql, none) ∧ ¬ Exactly 2 (indices (Scan.ofString sql).tokens) := by
  intro sql
  have hscan : Scan.ofString sql = scanWithin 60 sql.toList := ofChars_eq_scanWithin 60 (by decide)
  refine ⟨by unfold assess; rw [hscan]; decide +kernel, fun hexact => ?_⟩
  have hindices : indices (Scan.ofString sql).tokens = [2] := by
    rw [hscan]
    decide +kernel
  have hmem := (hexact 1).2 ⟨Nat.le_refl 1, by decide⟩
  rw [hindices] at hmem
  exact absurd hmem (by decide)

/-- A limit that runs into a point makes a placeholder of the end of a word. -/
theorem placeholders_gained :
    let sql := "SELECT a FROM t LIMIT ALL._$1"
    let text := "SELECT a FROM t LIMIT 1000._$1"
    assess {} sql (some 0) = .ok (text, some (.replaced "ALL" 1000)) ∧
      indices (Scan.ofString sql).tokens = [] ∧ indices (Scan.ofString text).tokens = [1] := by
  intro sql text
  have hscan : Scan.ofString sql = scanWithin 60 sql.toList := ofChars_eq_scanWithin 60 (by decide)
  have hrun : Scan.ofString text = scanWithin 60 text.toList := ofChars_eq_scanWithin 60 (by decide)
  refine ⟨by unfold assess; rw [hscan]; decide +kernel, ?_, ?_⟩
  · rw [hscan]
    decide +kernel
  · rw [hrun]
    decide +kernel

end SpatialQuery.Safety
