import Mathlib.Tactic.NormNum
import SpatialQuery.Proofs.Limit.Literal

/-!
When a statement that passes validation is bounded. `Sound` is the exact condition
(`row_bounded_iff`): the first clause outside of all parentheses is the one that counts, and the text
around a new limit leaves it in its place.
-/

namespace SpatialQuery.RowLimit

open Token Lexical Validation

/-- With `behind` after its keyword, the clause counts at most `m` rows, or a later clause does. -/
def HoldsAt (m : Nat) (c : Split) (behind : List Token) : Prop :=
  BoundedBehind m (tokensOf c.before) (c.keyword.token :: behind)

/-- A count that can be read as a natural number is lowered where it is too large. -/
def LiteralHolds (m : Nat) (c : Split) (count : Token) : Prop :=
  ¬EndsInLabel (tokensOf c.before) ∧ (∃ v, Counts c.keyword.token (tokensOf c.behind) v ∧
      (v ≤ (m : ℚ) ∨ ∃ n, Text.readNat64 count.text = .ok n)) ∨
    BoundedBehind m (tokensOf c.before ++ [c.keyword.token]) (tokensOf c.behind)

/-- The condition on a statement with a clause. -/
def SoundAt (policy : Policy) (m : Nat) (pieces : List Piece) (c : Split) : Prop :=
  match clauseOf c.keyword c.behind with
  | .all _ count rest =>
    -- the number in the place of the word may run into a point behind it
    HoldsAt m c (Scan.ofChars (withCount [] count rest policy.limitToAdd)).tokens
  | .literal _ count _ => LiteralHolds m c count.token
  | .singleRow => HoldsAt m c (tokensOf c.behind)
  | .computed =>
    depthAfter (openParen :: tokensOf pieces) ≤ 1 ∨
      BoundedBehind m [openParen] (tokensOf pieces ++ [closeParen])

/-- A statement without a clause gets one behind it, so it must not end inside of parentheses or in a
label; otherwise its first clause decides. -/
def Sound (policy : Policy) (m : Nat) (pieces : List Piece) : Prop :=
  match firstClause 0 pieces with
  | none => depthAfter (tokensOf pieces) = 0 ∧ ¬EndsInLabel (tokensOf pieces)
  | some c => SoundAt policy m pieces c

/-! ## A limit behind the statement -/

theorem clauseAt_added {m n : Nat} (h : n ≤ m) (front : List Token) :
    ClauseAt m front limitWord [countToken n] ↔ depthAfter front = 0 ∧ ¬EndsInLabel front := by
  have hcounts : Counts limitWord [countToken n] (n : ℚ) := by
    rw [← value_ofNat n]
    exact .limit rfl (isNumber_countToken n) (by simp)
  constructor
  · exact fun ⟨hdepth, hlabel, _⟩ => ⟨hdepth, hlabel⟩
  · exact fun ⟨hdepth, hlabel⟩ => ⟨hdepth, hlabel, n, by exact_mod_cast h, hcounts⟩

theorem boundedBehind_added {m n : Nat} (h : n ≤ m) (front : List Token) :
    BoundedBehind m front [limitWord, countToken n] ↔ depthAfter front = 0 ∧ ¬EndsInLabel front := by
  rw [boundedBehind_cons, clauseAt_added h, boundedBehind_cons_number _ (isNumber_countToken n),
    or_iff_left (not_boundedBehind_nil _ _)]

/-! ## The statement as a subquery -/

theorem isAnyKeyword_closeParen (keywords : List String) : closeParen.isAnyKeyword keywords = false :=
  isAnyKeyword_of_kind (by simp [closeParen]) keywords

/-- A clause does not reach over a closing parenthesis. -/
theorem Counts.of_closing {keyword : Token} {ts xs ys : List Token} {v : ℚ}
    (h : Counts keyword (ts ++ closeParen :: xs) v) : Counts keyword (ts ++ closeParen :: ys) v := by
  have hparen := isAnyKeyword_closeParen
  generalize he : ts ++ closeParen :: xs = cs at h
  -- Each form of the clause stops at the parenthesis or in front of it, however many of its tokens stand there.
  cases h with
  | limit hk hn hrest =>
    cases ts with
    | nil =>
      cases he
      cases hn
    | cons t ts =>
      cases he
      refine .limit hk hn ?_
      cases ts <;> exact hrest
  | fetch hk hfirst hn hrows honly =>
    rcases ts with _ | ⟨a, _ | ⟨b, _ | ⟨c, _ | ⟨d, ts⟩⟩⟩⟩ <;> cases he
    · simp [hparen] at hfirst
    · cases hn
    · simp [hparen] at hrows
    · cases honly
    · exact .fetch hk hfirst hn hrows honly
  | fetchRow hk hfirst hrows honly =>
    rcases ts with _ | ⟨a, _ | ⟨b, _ | ⟨c, ts⟩⟩⟩ <;> cases he
    · simp [hparen] at hfirst
    · simp [hparen] at hrows
    · cases honly
    · exact .fetchRow hk hfirst hrows honly

theorem boundedBehind_closing {m : Nat} (front ts rest : List Token) :
    BoundedBehind m front (ts ++ closeParen :: rest) ↔
      BoundedBehind m front (ts ++ [closeParen]) ∨
        BoundedBehind m (front ++ ts ++ [closeParen]) rest := by
  have hparen : ∀ front behind, ¬ClauseAt m front closeParen behind := by
    rintro front behind ⟨-, -, v, -, hc⟩
    have hk := hc.isKeyword
    rw [isAnyKeyword_closeParen] at hk
    cases hk
  induction ts generalizing front with
  | nil =>
    rw [List.nil_append, List.nil_append, boundedBehind_cons, boundedBehind_cons,
      or_iff_right (hparen _ _), or_iff_right (hparen _ _), or_iff_right (not_boundedBehind_nil _ _),
      List.append_nil]
  | cons t ts ih =>
    have hclause : ClauseAt m front t (ts ++ closeParen :: rest) ↔
        ClauseAt m front t (ts ++ [closeParen]) :=
      and_congr_right' (and_congr_right' (exists_congr fun v => and_congr_right'
        ⟨Counts.of_closing, Counts.of_closing⟩))
    have htail := ih (front ++ [t])
    rw [List.append_assoc front [t] ts, List.singleton_append] at htail
    rw [List.cons_append, List.cons_append, boundedBehind_cons, boundedBehind_cons, hclause,
      or_assoc]
    exact or_congr_right htail

theorem clauseless_opening : Clauseless 0 (openingPieces.map Piece.token) := by
  refine clauseless_cons (fun _ => rfl) (clauseless_cons (fun _ => rfl) (clauseless_cons (fun _ => rfl)
    (clauseless_cons (fun _ => rfl) (clauseless_nil _))))

/-- The name of the subquery. -/
def subqueryName : List Token :=
  [⟨.word, "AS".toList⟩, ⟨.quotedIdentifier, '"' :: "geoview_limited".toList ++ ['"']⟩]

theorem clauseless_name (depth : Nat) : Clauseless depth subqueryName :=
  clauseless_cons (fun _ => rfl) (clauseless_cons (fun _ => rfl) (clauseless_nil _))

theorem not_endsInLabel_name (front : List Token) : ¬EndsInLabel (front ++ subqueryName) := by
  rw [subqueryName, ← List.singleton_append, ← List.append_assoc, endsInLabel_concat]
  decide

/-- The limit around a subquery counts if the statement does not leave a parenthesis open. -/
theorem rowBounded_wrapped (m : Nat) (ts : List Token) :
    RowBounded m (openingPieces.map Piece.token ++ (ts ++ (closingPieces m).map Piece.token)) ↔
      depthAfter (openParen :: ts) ≤ 1 ∨ BoundedBehind m [openParen] (ts ++ [closeParen]) := by
  have hfront : ∀ ys, BoundedBehind m (openingPieces.map Piece.token) ys ↔
      BoundedBehind m [openParen] ys := by
    intro ys
    refine boundedBehind_congr ys rfl (iff_of_eq ?_)
    rfl
  have hlimit : ∀ front, BoundedBehind m (front ++ [closeParen]) (subqueryName ++ [limitWord, countToken m]) ↔
      depthAfter front ≤ 1 := by
    intro front
    rw [boundedBehind_clauseless _ (clauseless_name _), boundedBehind_added (Nat.le_refl m),
      and_iff_left (not_endsInLabel_name _), depthAfter_append, depthAfter_append]
    change depthAfter front - 1 = 0 ↔ _
    omega
  have hclosing : (closingPieces m).map Piece.token =
      closeParen :: (subqueryName ++ [limitWord, countToken m]) := rfl
  rw [RowBounded, boundedBehind_clauseless [] clauseless_opening, List.nil_append, hfront, hclosing,
    boundedBehind_closing, hlimit, or_comm]
  rfl

/-! ## The first clause -/

theorem rowBounded_split {m : Nat} {c : Split} (h : Clauseless 0 (tokensOf c.before))
    (behind : List Token) :
    RowBounded m (tokensOf c.before ++ c.keyword.token :: behind) ↔ HoldsAt m c behind :=
  boundedBehind_clauseless [] h

/-- A number at most `m` takes the place of one that is too large. -/
theorem holdsAt_number {m : Nat} {c : Split} {between rest : List Token} {count used : Token}
    (hdepth : depthAfter (tokensOf c.before) = 0) (hcount : CountBehind c.keyword.token between)
    (hbetween : between = [] ∨
      (∃ first, between = [first]) ∧ ∃ t ∈ rest.head?, t.isAnyKeyword ["row", "rows"] = true)
    (hn : count.isNumber = true) (hu : used.isNumber = true) {plain : Prop}
    (hv : value used.text ≤ m ↔ value count.text ≤ m ∨ plain) :
    HoldsAt m c (between ++ used :: rest) ↔ ¬EndsInLabel (tokensOf c.before) ∧
        (∃ v, Counts c.keyword.token (between ++ count :: rest) v ∧ (v ≤ (m : ℚ) ∨ plain)) ∨
      BoundedBehind m (tokensOf c.before ++ [c.keyword.token]) (between ++ count :: rest) := by
  obtain ⟨P, hP⟩ := counts_number rest hcount
  have hused : (∃ v ≤ (m : ℚ), Counts c.keyword.token (between ++ used :: rest) v) ↔
      ∃ v, Counts c.keyword.token (between ++ count :: rest) v ∧ (v ≤ (m : ℚ) ∨ plain) := by
    simp only [hP used _ hu, hP count _ hn]
    constructor
    · rintro ⟨v, hle, rfl, h⟩
      exact ⟨_, ⟨rfl, h⟩, hv.1 hle⟩
    · rintro ⟨v, ⟨rfl, h⟩, hle⟩
      exact ⟨_, hv.2 hle, rfl, h⟩
  rw [HoldsAt, boundedBehind_cons, ClauseAt, hused, and_iff_right hdepth,
    boundedBehind_number hbetween hu, boundedBehind_number hbetween hn,
    boundedBehind_recount _ _ hu hn]

/-- The pieces of a statement that may be run. -/
structure Valid (pieces : List Piece) : Prop where
  readable : Readable ⟨headed pieces, []⟩
  settled : ∀ p ∈ headed pieces, Settled p.token

theorem scan_statement {pieces : List Piece} (h : Valid pieces) :
    Scan.ofChars (statementText pieces) = ⟨headed pieces, []⟩ := by
  rw [← text_headed]
  exact ofChars_text h.readable

theorem tokens_statement {pieces : List Piece} (h : Valid pieces) :
    (Scan.ofChars (statementText pieces)).tokens = tokensOf pieces := by
  rw [scan_statement h]
  exact tokens_headed pieces

section Rewrite

variable {policy : Policy} {m : Nat} {pieces : List Piece} {c : Split}

/-- The word `ALL` or `NULL` behind the keyword. -/
theorem split_all {before rest : List Piece} {count : Piece} (h : Valid pieces)
    (hc : firstClause 0 pieces = some c)
    (hall : clauseOf c.keyword c.behind = .all before count rest) :
    pieces = (c.before ++ before) ++ count :: rest ∧ before = [c.keyword] ∧
      Follows ((c.before ++ before).map Piece.token) count.token := by
  obtain ⟨hpieces, -, hk, -⟩ := firstClause_spec hc
  obtain ⟨rfl, hbehind, hword⟩ := clauseOf_all hall
  have hsplit : pieces = (c.before ++ [c.keyword]) ++ count :: rest := by
    rw [hpieces, hbehind]
    simp
  refine ⟨hsplit, rfl, .inl ⟨c.keyword.token, by simp, word_of_isAnyKeyword hk, ?_⟩⟩
  obtain ⟨_, hl⟩ := lexeme_of_readable h.readable (p := count) (by
    rw [hsplit, headed_append (by simp)]
    simp)
  obtain ⟨d, ds, htext, hd, -⟩ := hl.word_of_kind (word_of_isAnyKeyword hword)
  exact ⟨d, by simp [htext], by simp [isWordPart, hd]⟩

/-- The number in the place of the word may run into what stands behind. -/
theorem scan_all {before rest : List Piece} {count : Piece} (h : Valid pieces)
    (hc : firstClause 0 pieces = some c)
    (hall : clauseOf c.keyword c.behind = .all before count rest) (n : Nat) :
    Scan.ofChars (withCount (c.before ++ before) count rest n) =
      ⟨headed (c.before ++ before) ++ (Scan.ofChars (withCount [] count rest n)).pieces,
        (Scan.ofChars (withCount [] count rest n)).trailing⟩ := by
  obtain ⟨hsplit, rfl, hfollows⟩ := split_all h hc hall
  have hread := h.readable
  have hsettled := h.settled
  rw [hsplit] at hread hsettled
  exact scan_withCount hread (by simp) hsettled hfollows n

/-- The limit in the place of `ALL` or `NULL`. -/
theorem sound_all {before rest : List Piece} {count : Piece} (h : Valid pieces)
    (hc : firstClause 0 pieces = some c)
    (hall : clauseOf c.keyword c.behind = .all before count rest) (n : Nat) :
    RowBounded m (Scan.ofChars (withCount (c.before ++ before) count rest n)).tokens ↔
      HoldsAt m c (Scan.ofChars (withCount [] count rest n)).tokens := by
  obtain ⟨-, -, -, hbefore⟩ := firstClause_spec hc
  obtain ⟨-, rfl, -⟩ := split_all h hc hall
  rw [scan_all h hc hall, Scan.tokens, List.map_append, tokens_headed, List.map_append, List.append_assoc]
  exact rowBounded_split hbefore _

theorem split_literal {before rest : List Piece} {count : Piece}
    (hc : firstClause 0 pieces = some c)
    (hlit : clauseOf c.keyword c.behind = .literal before count rest) :
    pieces = (c.before ++ before) ++ count :: rest ∧ c.before ++ before ≠ [] ∧
      count.token.isNumber = true := by
  obtain ⟨hpieces, -, hk, -⟩ := firstClause_spec hc
  obtain ⟨between, rfl, hbehind, hnum, -⟩ := clauseOf_literal hk hlit
  refine ⟨?_, by simp, hnum⟩
  rw [hpieces, hbehind]
  simp

theorem readable_literal {before rest : List Piece} {count : Piece} (h : Valid pieces)
    (hc : firstClause 0 pieces = some c)
    (hlit : clauseOf c.keyword c.behind = .literal before count rest) :
    Readable ⟨count :: rest, []⟩ ∧ Numeral count.token.text := by
  obtain ⟨hsplit, hne, hnum⟩ := split_literal hc hlit
  have hread := h.readable
  rw [hsplit, headed_append hne] at hread
  have hcount := readable_of_append hread
  exact ⟨hcount, numeral_of_isNumber (readable_cons.1 hcount).2.1 hnum⟩

/-- The largest limit in the place of a larger number. -/
theorem scan_literal {before rest : List Piece} {count : Piece} (h : Valid pieces)
    (hc : firstClause 0 pieces = some c)
    (hlit : clauseOf c.keyword c.behind = .literal before count rest) {n : Nat}
    (hn : Text.readNat64 count.token.text = .ok n) (max : Nat) :
    Scan.ofChars (withCount (c.before ++ before) count rest max) =
      ⟨headed (c.before ++ before) ++ ⟨count.blanks, countToken max⟩ :: rest, []⟩ := by
  obtain ⟨hsplit, hne, hnum⟩ := split_literal hc hlit
  obtain ⟨hcount, hnumeral⟩ := readable_literal h hc hlit
  obtain ⟨hdigits, -⟩ := digits_of_readNat64 hnumeral hn
  obtain ⟨d, ds, htext, -⟩ := hnumeral.startsNumeral []
  have hd : d.isDigit = true := hdigits d (by simp [htext])
  have hfollows : Follows ((c.before ++ before).map Piece.token) count.token := by
    obtain ⟨-, -, hk, -⟩ := firstClause_spec hc
    obtain ⟨between, rfl, -, -, ⟨-, rfl⟩ | ⟨hfetch, ⟨first, rfl⟩, -⟩⟩ := clauseOf_literal hk hlit
    · refine .inl ⟨c.keyword.token, by simp, word_of_isAnyKeyword hk, d, by simp [htext], ?_⟩
      simp [isWordPart, hd]
    · exact .inr ⟨c.before.map Piece.token, c.keyword.token, first.token, by simp, hfetch, d,
        by simp [htext], hd⟩
  have hread := h.readable
  have hsettled := h.settled
  rw [hsplit] at hread hsettled
  rw [scan_withCount hread hne hsettled hfollows, scan_lowered hcount hnum hdigits]

theorem tokens_literal {before rest : List Piece} {count : Piece} (h : Valid pieces)
    (hc : firstClause 0 pieces = some c)
    (hlit : clauseOf c.keyword c.behind = .literal before count rest) {n : Nat}
    (hn : Text.readNat64 count.token.text = .ok n) (max : Nat) :
    (Scan.ofChars (withCount (c.before ++ before) count rest max)).tokens =
      tokensOf (c.before ++ before) ++ countToken max :: tokensOf rest := by
  rw [scan_literal h hc hlit hn, Scan.tokens, List.map_append, tokens_headed]
  rfl

/-- A number at most `m` in the place of the count keeps the clause. -/
theorem rowBounded_literal {before rest : List Piece} {count : Piece} {used : Token}
    (hc : firstClause 0 pieces = some c)
    (hlit : clauseOf c.keyword c.behind = .literal before count rest) (hu : used.isNumber = true)
    (hv : value used.text ≤ m ↔
      value count.token.text ≤ m ∨ ∃ n, Text.readNat64 count.token.text = .ok n) :
    RowBounded m (tokensOf (c.before ++ before) ++ used :: tokensOf rest) ↔
      LiteralHolds m c count.token := by
  obtain ⟨-, hdepth, hk, hbefore⟩ := firstClause_spec hc
  obtain ⟨between, rfl, hbehind, hnum, hplace⟩ := clauseOf_literal hk hlit
  have hcount : CountBehind c.keyword.token (tokensOf between) := by
    rcases hplace with ⟨hlimit, rfl⟩ | ⟨hfetch, ⟨first, rfl⟩, -⟩
    · exact .inl ⟨hlimit, rfl⟩
    · exact .inr ⟨hfetch, first.token, rfl⟩
  have hbetween : tokensOf between = [] ∨ (∃ first, tokensOf between = [first]) ∧
      ∃ t ∈ (tokensOf rest).head?, t.isAnyKeyword ["row", "rows"] = true := by
    rcases hplace with ⟨-, rfl⟩ | ⟨-, ⟨first, rfl⟩, hrow⟩
    · exact .inl rfl
    · exact .inr ⟨⟨first.token, rfl⟩, hrow⟩
  have htokens : tokensOf c.behind = tokensOf between ++ count.token :: tokensOf rest := by
    simp [hbehind, tokensOf]
  have hfront : tokensOf (c.before ++ c.keyword :: between) ++ used :: tokensOf rest =
      tokensOf c.before ++ c.keyword.token :: (tokensOf between ++ used :: tokensOf rest) := by
    simp [tokensOf]
  rw [hfront, rowBounded_split hbefore, LiteralHolds, htokens]
  exact holdsAt_number hdepth hcount hbetween hnum hu hv

theorem boundRows_iff (hm : policy.maxLimit = some m) (h : Valid pieces) :
    RowBounded m (Scan.ofChars (boundRows policy pieces).1).tokens ↔ Sound policy m pieces := by
  unfold boundRows Sound
  rw [findLimit_eq]
  cases hc : firstClause 0 pieces with
  | none =>
    have hle : policy.limitToAdd ≤ m := by
      simp [Policy.limitToAdd, hm]
    change RowBounded m (Scan.ofChars (statementText pieces ++ " LIMIT ".toList ++
      Text.ofNat policy.limitToAdd)).tokens ↔ _
    rw [tokens_appended h.readable h.settled]
    change BoundedBehind m [] (tokensOf pieces ++ _) ↔ _
    rw [boundedBehind_clauseless [] (clauseless_of_firstClause hc)]
    exact boundedBehind_added hle _
  | some c =>
    obtain ⟨hpieces, hdepth, hk, hbefore⟩ := firstClause_spec hc
    rw [Option.map_some]
    dsimp only
    unfold SoundAt
    cases hl : clauseOf c.keyword c.behind with
    | all before count rest =>
      exact sound_all h hc hl policy.limitToAdd
    | literal before count rest =>
      obtain ⟨hsplit, -, hnum⟩ := split_literal hc hl
      have hkept := tokens_statement h
      rw [hsplit, tokensOf, List.map_append, List.map_cons] at hkept
      simp only [under, hm]
      cases hn : Text.readNat64 count.token.text with
      | error e =>
        dsimp only
        -- what is no number for the limit stays as it is
        rw [hsplit, hkept]
        exact rowBounded_literal hc hl hnum (by simp [hn])
      | ok n =>
        obtain ⟨-, hnumeral⟩ := readable_literal h hc hl
        obtain ⟨-, hvalue⟩ := digits_of_readNat64 hnumeral hn
        dsimp only
        split
        · -- the number is lowered to the maximum
          rw [tokens_literal h hc hl hn]
          refine rowBounded_literal hc hl (isNumber_countToken m) (iff_of_true ?_ (.inr ⟨n, hn⟩))
          rw [countToken, value_ofNat]
        · rename_i hle
          rw [hsplit, hkept]
          refine rowBounded_literal hc hl hnum (iff_of_true ?_ (.inr ⟨n, hn⟩))
          rw [hvalue]
          exact_mod_cast Nat.le_of_not_lt hle
    | singleRow =>
      change RowBounded m (Scan.ofChars (statementText pieces)).tokens ↔ HoldsAt m c (tokensOf c.behind)
      rw [tokens_statement h, hpieces, tokensOf, List.map_append, List.map_cons]
      exact rowBounded_split hbefore _
    | computed =>
      have hlimit : policy.limitAround = m := by
        simp [Policy.limitAround, hm]
      change RowBounded m (Scan.ofChars (wrapped "geoview_limited" (statementText pieces)
        policy.limitAround)).tokens ↔ _
      rw [hlimit, tokens_wrapped h.readable h.settled]
      exact rowBounded_wrapped m (tokensOf pieces)

end Rewrite

/-- The statement to run is bounded exactly if the statement that was given is sound. -/
theorem row_bounded_iff {policy : Policy} {m : Nat} (hm : policy.maxLimit = some m)
    {sql text : String} {supplied : Option Nat} {change : Option LimitChange}
    (h : assess policy sql supplied = .ok (text, change)) :
    ∃ pieces, statement (Scan.ofString sql) = .ok pieces ∧
      (RowBounded m (Scan.ofString text).tokens ↔ Sound policy m pieces) := by
  obtain ⟨pieces, hs, -, rfl⟩ := assess_ok h
  obtain ⟨hread, -, hsettled⟩ := readable_statement hs
  refine ⟨pieces, hs, ?_⟩
  rw [Scan.ofString, String.toList_ofList]
  exact boundRows_iff hm ⟨hread, hsettled⟩

/-- A number that is too large is lowered. -/
theorem row_bounded_lowered :
    let policy : Policy := { maxLimit := some 10 }
    assess policy "SELECT * FROM t LIMIT 50" none =
        .ok ("SELECT * FROM t LIMIT 10", some (.lowered 50 10)) ∧
      ∃ pieces, statement (Scan.ofString "SELECT * FROM t LIMIT 50") = .ok pieces ∧
        (RowBounded 10 (Scan.ofString "SELECT * FROM t LIMIT 10").tokens ↔ Sound policy 10 pieces) := by
  intro policy
  have hscan : Scan.ofString "SELECT * FROM t LIMIT 50" =
      scanWithin 30 "SELECT * FROM t LIMIT 50".toList := ofChars_eq_scanWithin 30 (by decide)
  have h : assess policy "SELECT * FROM t LIMIT 50" none =
      .ok ("SELECT * FROM t LIMIT 10", some (.lowered 50 10)) := by
    unfold assess
    rw [hscan]
    decide +kernel
  exact ⟨h, row_bounded_iff rfl h⟩

/-- A number with an exponent is not read as one, and the statement passes as it is. -/
theorem row_bounded_exponent :
    let policy : Policy := { maxLimit := some 10 }
    assess policy "SELECT * FROM t LIMIT 1e9" none = .ok ("SELECT * FROM t LIMIT 1e9", none) ∧
      ¬RowBounded 10 (Scan.ofString "SELECT * FROM t LIMIT 1e9").tokens := by
  intro policy
  have hscan : Scan.ofString "SELECT * FROM t LIMIT 1e9" =
      scanWithin 30 "SELECT * FROM t LIMIT 1e9".toList := ofChars_eq_scanWithin 30 (by decide)
  have h : assess policy "SELECT * FROM t LIMIT 1e9" none =
      .ok ("SELECT * FROM t LIMIT 1e9", none) := by
    unfold assess
    rw [hscan]
    decide +kernel
  have htokens : (Scan.ofString "SELECT * FROM t LIMIT 1e9").tokens =
      [⟨.word, "SELECT".toList⟩, ⟨.punct '*', ['*']⟩, ⟨.word, "FROM".toList⟩, ⟨.word, ['t']⟩] ++
        [limitWord, ⟨.number, ['1', 'e', '9']⟩] := by
    rw [hscan]
    decide +kernel
  have hvalue : value ['1', 'e', '9'] = 1000000000 := by
    change ((1 : Nat) : ℚ) * 10 ^ (((9 : Nat) : ℤ) - ((0 : Nat) : ℤ)) = _
    norm_num
  refine ⟨h, ?_⟩
  rw [htokens, RowBounded, boundedBehind_clauseless []]
  · rw [boundedBehind_cons]
    rintro (⟨-, -, v, hle, hcounts⟩ | hlater)
    · cases hcounts with
      | limit =>
        rw [hvalue] at hle
        norm_num at hle
    · exact not_boundedBehind_nil _ _ ((boundedBehind_cons_number _ rfl).1 hlater)
  · exact clauseless_cons (fun _ => rfl) (clauseless_cons (fun _ => rfl) (clauseless_cons
      (fun _ => rfl) (clauseless_cons (fun _ => rfl) (clauseless_nil _))))

end SpatialQuery.RowLimit
