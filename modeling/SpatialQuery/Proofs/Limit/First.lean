import SpatialQuery.Proofs.Limit.Clause

/-!
The clause that decides about a rewrite is the first one outside of all parentheses. `firstClause`
splits a statement there; no clause stands in front of it.
-/

namespace SpatialQuery.RowLimit

open Token Validation

/-- A statement around one of its keywords. -/
structure Split where
  before : List Piece
  keyword : Piece
  behind : List Piece

def Split.cons (p : Piece) (c : Split) : Split :=
  { c with before := p :: c.before }

/-- The first `LIMIT` or `FETCH` outside of all parentheses, of which `depth` are open. -/
def firstClause : Nat → List Piece → Option Split
  | _, [] => none
  | depth, p :: ps =>
    if depth = 0 ∧ p.token.isAnyKeyword ["limit", "fetch"] = true then some ⟨[], p, ps⟩
    else (firstClause (depthStep depth p.token) ps).map (.cons p)

def tokensOf (ps : List Piece) : List Token :=
  ps.map Piece.token

/-- No clause begins at one of these tokens. -/
def Clauseless (depth : Nat) (ts : List Token) : Prop :=
  ∀ as t bs, ts = as ++ t :: bs → as.foldl depthStep depth = 0 →
    t.isAnyKeyword ["limit", "fetch"] = false

theorem clauseless_nil (depth : Nat) : Clauseless depth [] := by
  intro as t bs he
  simp at he

theorem clauseless_cons {depth : Nat} {t : Token} {ts : List Token}
    (ht : depth = 0 → t.isAnyKeyword ["limit", "fetch"] = false)
    (hts : Clauseless (depthStep depth t) ts) : Clauseless depth (t :: ts) := by
  intro as u bs he hdepth
  cases as with
  | nil =>
    rw [List.nil_append, List.cons.injEq] at he
    rw [← he.1]
    exact ht hdepth
  | cons a as =>
    rw [List.cons_append, List.cons.injEq] at he
    obtain ⟨rfl, he⟩ := he
    exact hts as u bs he hdepth

theorem boundedBehind_clauseless {m : Nat} (front : List Token) {xs ys : List Token}
    (h : Clauseless (depthAfter front) xs) :
    BoundedBehind m front (xs ++ ys) ↔ BoundedBehind m (front ++ xs) ys := by
  refine boundedBehind_append fun as t bs he hc => ?_
  obtain ⟨hdepth, -, v, -, hcounts⟩ := hc
  rw [depthAfter_append] at hdepth
  have hk := hcounts.isKeyword
  rw [h as t bs he hdepth] at hk
  cases hk

theorem clauseless_of_firstClause {depth : Nat} {ps : List Piece} (h : firstClause depth ps = none) :
    Clauseless depth (tokensOf ps) := by
  induction ps generalizing depth with
  | nil => exact clauseless_nil depth
  | cons p ps ih =>
    rw [firstClause] at h
    split at h
    · cases h
    · rename_i hp
      refine clauseless_cons (fun hd => ?_) (ih (Option.map_eq_none_iff.1 h))
      simpa [hd] using hp

theorem firstClause_spec {depth : Nat} {ps : List Piece} {c : Split}
    (h : firstClause depth ps = some c) : ps = c.before ++ c.keyword :: c.behind ∧
      (tokensOf c.before).foldl depthStep depth = 0 ∧
      c.keyword.token.isAnyKeyword ["limit", "fetch"] = true ∧ Clauseless depth (tokensOf c.before) := by
  induction ps generalizing depth c with
  | nil => cases h
  | cons p ps ih =>
    rw [firstClause] at h
    split at h
    · rename_i hp
      cases h
      exact ⟨rfl, hp.1, hp.2, clauseless_nil depth⟩
    · rename_i hp
      obtain ⟨c, hc, rfl⟩ := Option.map_eq_some_iff.1 h
      obtain ⟨rfl, hdepth, hk, hbefore⟩ := ih hc
      refine ⟨rfl, hdepth, hk, clauseless_cons (fun hd => ?_) hbefore⟩
      simpa [hd] using hp

/-! ## The clause that is rewritten -/

/-- The clause of a keyword, as it is found in front of what follows. -/
def clauseOf (keyword : Piece) (behind : List Piece) : LimitClause :=
  if keyword.token.isKeyword "limit" then limitClause keyword behind else fetchClause keyword behind

/-- The clause behind more pieces. -/
def under (front : List Piece) : LimitClause → LimitClause
  | .all before count behind => .all (front ++ before) count behind
  | .literal before count behind => .literal (front ++ before) count behind
  | .singleRow => .singleRow
  | .computed => .computed

theorem under_nil (l : LimitClause) : under [] l = l := by
  cases l <;> rfl

theorem cons_under (p : Piece) (front : List Piece) (l : LimitClause) :
    (under front l).cons p = under (p :: front) l := by
  cases l <;> rfl

theorem isAnyKeyword_of_isPunct {t : Token} {c : Char} (h : t.isPunct c = true) (keywords : List String) :
    t.isAnyKeyword keywords = false := by
  have hk : t.kind = .punct c := eq_of_beq h
  simp [isAnyKeyword, isKeyword, hk]

/-- The rewrite is decided by the first clause. -/
theorem findLimit_eq (depth : Nat) (ps : List Piece) : findLimit depth ps =
    (firstClause depth ps).map fun c => under c.before (clauseOf c.keyword c.behind) := by
  induction ps generalizing depth with
  | nil => rfl
  | cons p ps ih =>
    -- a token in front of the clause is put in front of either result
    have hmap : ∀ o : Option Split, (o.map fun c => under c.before (clauseOf c.keyword c.behind)).map
        (LimitClause.cons p) =
        (o.map (Split.cons p)).map fun c => under c.before (clauseOf c.keyword c.behind) := by
      intro o
      cases o with
      | none => rfl
      | some c => simp [Split.cons, cons_under]
    rw [findLimit, firstClause]
    split
    · rename_i hopen
      rw [ih, hmap, if_neg (by simp [isAnyKeyword_of_isPunct hopen]), depthStep, if_pos hopen]
    rename_i hopen
    split
    · rename_i hclose
      rw [ih, hmap, if_neg (by simp [isAnyKeyword_of_isPunct hclose]), depthStep, if_neg hopen,
        if_pos hclose]
    rename_i hclose
    split
    · rename_i hlimit
      rw [Bool.and_eq_true, beq_iff_eq] at hlimit
      rw [if_pos ⟨hlimit.1, by simp [isAnyKeyword, hlimit.2]⟩, Option.map_some, under_nil,
        clauseOf, if_pos hlimit.2]
    rename_i hlimit
    split
    · rename_i hfetch
      rw [Bool.and_eq_true, beq_iff_eq] at hfetch
      have hl : ¬p.token.isKeyword "limit" = true := fun hl => hlimit (by simp [hfetch.1, hl])
      rw [if_pos ⟨hfetch.1, by simp [isAnyKeyword, hfetch.2]⟩, Option.map_some, under_nil,
        clauseOf, if_neg hl]
    · rename_i hfetch
      have hnone : ¬(depth = 0 ∧ p.token.isAnyKeyword ["limit", "fetch"] = true) := by
        rintro ⟨rfl, hk⟩
        simp only [isAnyKeyword, List.any_cons, List.any_nil, Bool.or_false, Bool.or_eq_true] at hk
        rcases hk with hk | hk
        · exact hlimit (by simp [hk])
        · exact hfetch (by simp [hk])
      rw [if_neg hnone, ih, hmap, depthStep, if_neg hopen, if_neg hclose]

theorem clauseOf_all {keyword count : Piece} {behind before rest : List Piece}
    (h : clauseOf keyword behind = .all before count rest) : before = [keyword] ∧
      behind = count :: rest ∧ count.token.isAnyKeyword ["all", "null"] = true := by
  unfold clauseOf limitClause fetchClause at h
  split at h
  · split at h
    · split at h
      · rename_i hcount
        cases h
        exact ⟨rfl, rfl, hcount⟩
      · split at h <;> cases h
    · cases h
  · split at h
    · split at h
      · cases h
      · split at h <;> cases h
    · cases h

/-- A literal count follows `LIMIT`, or one more token behind `FETCH` and rows behind it. -/
theorem clauseOf_literal {keyword count : Piece} {behind before rest : List Piece}
    (hk : keyword.token.isAnyKeyword ["limit", "fetch"] = true)
    (h : clauseOf keyword behind = .literal before count rest) :
    ∃ between, before = keyword :: between ∧ behind = between ++ count :: rest ∧
      count.token.isNumber = true ∧ (keyword.token.isKeyword "limit" = true ∧ between = [] ∨
        keyword.token.isKeyword "fetch" = true ∧ (∃ first, between = [first]) ∧
          ∃ t ∈ (tokensOf rest).head?, t.isAnyKeyword ["row", "rows"] = true) := by
  unfold clauseOf limitClause fetchClause at h
  split at h
  · rename_i hlimit
    split at h
    · split at h
      · cases h
      · split at h
        · rename_i hcount
          cases h
          rw [Bool.and_eq_true] at hcount
          exact ⟨[], rfl, rfl, hcount.1, .inl ⟨hlimit, rfl⟩⟩
        · cases h
    · cases h
  · rename_i hlimit
    have hfetch : keyword.token.isKeyword "fetch" = true := by
      simpa [isAnyKeyword, hlimit] using hk
    split at h
    · rename_i first _ _
      split at h
      · cases h
      · split at h
        · rename_i hcount
          cases h
          rw [Bool.and_eq_true, Option.any_eq_true] at hcount
          obtain ⟨hnum, p, hp, hrow⟩ := hcount
          refine ⟨[first], rfl, rfl, hnum, .inr ⟨hfetch, ⟨first, rfl⟩, p.token, ?_, hrow⟩⟩
          rw [tokensOf, List.head?_map, hp]
          rfl
        · cases h
    · cases h

end SpatialQuery.RowLimit
