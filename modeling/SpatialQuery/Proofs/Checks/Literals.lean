import SpatialQuery.Proofs.Checks.ReadOnly
import SpatialQuery.Proofs.Lexical.Plain
import SpatialQuery.Proofs.Limit.Plan

/-!
What stands in a literal decides nothing. The statement in a text, the checks of its tokens and the rewrite of its
limit look at literals only to pass over them, so a text with another literal in it gets the same verdict, and the text
to run holds the other literal where it held the first one (`verdict_withLiteral`).
-/

namespace SpatialQuery.Safety

open Token Lexical Validation RowLimit Query Reads

/-! ## Checks -/

section Faithful

variable {f : Token → Token} (hf : Faithful f) (ts : List Token)

include hf

theorem readBy_map (defaultSchema : String) :
    Relation.readBy defaultSchema (ts.map f) = Relation.readBy defaultSchema ts := by
  have hclose : ∀ t ∈ ([] : List Token).head?, t.isPunct ')' = true := by simp
  have hopen : ∀ t ∈ ([] : List Token).head?, t.isPunct '(' = true := by simp
  have hfits : ∀ depth, Fits [] depth ts := fun _ hne => absurd rfl hne
  have hbindings := bindings_embed hf hclose (hfits 0)
  have hend : ∀ before here, mentions before here [] [] = [] := fun _ _ => rfl
  have hmentions := mentions_embed hf hclose hopen (fun _ => rfl) hend [] false [] (hfits 0)
  simp only [List.append_nil, List.map_nil, bindings] at hbindings hmentions
  rw [Relation.readBy, hbindings, hmentions, filterMap_resolve_shift]
  rfl

theorem names_map : (ts.map f).filterMap Token.name? = ts.filterMap Token.name? := by
  rw [List.filterMap_map]
  congr 1
  funext t
  exact hf.name? t

theorem checkUnion_map (allowed : Bool) : checkUnion allowed (ts.map f) = checkUnion allowed ts := by
  induction ts with
  | nil => rfl
  | cons t ts ih => rw [List.map_cons, checkUnion, checkUnion, hf.isKeyword, names_map hf, ih]

theorem writes?_map (t : Token) (next : Option Token) : writes? (f t) (next.map f) = writes? t next := by
  have hopen : (next.map f).any (·.isPunct '(') = next.any (·.isPunct '(') := by
    cases next with
    | none => rfl
    | some u => exact hf.isPunct u '('
  have hlock : (next.map f).any (·.isAnyKeyword ["share", "key", "no"]) =
      next.any (·.isAnyKeyword ["share", "key", "no"]) := by
    cases next with
    | none => rfl
    | some u => exact hf.isAnyKeyword u _
  rw [writes?, writes?, hf.name?, hopen, hlock, hf.isKeyword, hf.isKeyword, funext (hf.isKeyword t)]

theorem checkWrites_map : checkWrites (ts.map f) = checkWrites ts := by
  induction ts with
  | nil => rfl
  | cons t ts ih => rw [List.map_cons, checkWrites, checkWrites, List.head?_map, writes?_map hf, ih]

theorem checkParameters_map (supplied : Option Nat) :
    checkParameters (ts.map f) supplied = checkParameters ts supplied := by
  have hindices : (ts.map f).filterMap placeholder? = ts.filterMap placeholder? := by
    rw [List.filterMap_map]
    congr 1
    funext t
    rw [Function.comp_apply, placeholder?, hf.kind]
    rfl
  cases supplied with
  | none => rfl
  | some n => rw [checkParameters, checkParameters, hindices]

/-- The checks do not look at the texts of literals. -/
theorem checkTokens_map (policy : Policy) (supplied : Option Nat) :
    checkTokens policy (ts.map f) supplied = checkTokens policy ts supplied := by
  rw [checkTokens, checkTokens, checkUnion_map hf, checkWrites_map hf, checkParameters_map hf, checkRelations,
    checkRelations, readBy_map hf]

end Faithful

theorem checkTokens_literal (policy : Policy) (supplied : Option Nat) {t u : Token} (ht : t.kind = .stringLiteral)
    (hu : u.kind = .stringLiteral) (before behind : List Token) :
    checkTokens policy (before ++ t :: behind) supplied = checkTokens policy (before ++ u :: behind) supplied := by
  have hemptied : (before ++ t :: behind).map emptied = (before ++ u :: behind).map emptied := by
    simp only [List.map_append, List.map_cons, emptied_literal ht, emptied_literal hu]
  rw [← checkTokens_map faithful_emptied, hemptied, checkTokens_map faithful_emptied]

/-! ## The statement in a text -/

def isUnclosed (t : Token) : Bool :=
  match t.kind with
  | .unclosed _ => true
  | _ => false

/-- The statement in the pieces of a text, or the code of the reason why there is none: no offset is looked at. -/
def found (ps : List Piece) : Except String (List Piece) :=
  match ps.dropWhile (isOutside ·.token) with
  | [] => .error Rejection.empty.code
  | verb :: rest =>
    if !verb.token.isAnyKeyword ["select", "with"] then .error (Rejection.notSelect "").code
    else if ps.any (isUnclosed ·.token) || (verb :: rest).any (·.token.isComment) ||
        2 ≤ ((verb :: rest).dropWhile (!·.token.isPunct ';')).length then .error Rejection.stacked.code
    else .ok ((verb :: rest).takeWhile (!·.token.isPunct ';'))

theorem any_isUnclosed (s : Scan) : s.pieces.any (isUnclosed ·.token) = s.unclosed?.isSome := by
  have hclosed : ∀ t : Token, isUnclosed t = false ↔ ∀ what, t.kind ≠ .unclosed what := by
    intro t
    unfold isUnclosed
    split <;> simp_all
  rw [← Bool.not_inj_iff, Bool.eq_iff_iff, Option.not_isSome, Option.isNone_iff_eq_none, unclosed?_eq_none_iff,
    Bool.not_eq_true', List.any_eq_false]
  simp only [Bool.not_eq_true, hclosed]

theorem any_isComment (xs : List (Piece × Nat)) :
    (xs.map Prod.fst).any (·.token.isComment) = (xs.find? fun (p, _) => p.token.isComment).isSome := by
  induction xs with
  | nil => rfl
  | cons x xs ih =>
    rw [List.map_cons, List.any_cons, List.find?_cons, ih]
    dsimp only
    cases x.1.token.isComment <;> rfl

theorem found_pieces (s : Scan) : (statement s).mapError Rejection.code = found s.pieces := by
  have hdrop : s.pieces.dropWhile (isOutside ·.token) =
      (s.located.dropWhile fun (p, _) => p.token.isComment || p.token.isPunct ';').map Prod.fst := by
    rw [← map_fst_located s, List.dropWhile_map]
    rfl
  unfold statement found
  rw [hdrop]
  cases s.located.dropWhile fun (p, _) => p.token.isComment || p.token.isPunct ';' with
  | nil => rfl
  | cons x rest =>
    obtain ⟨verb, start⟩ := x
    have hcomment := any_isComment ((verb, start) :: rest)
    simp only [List.map_cons] at hcomment ⊢
    rw [any_isUnclosed, hcomment]
    cases verb.token.isAnyKeyword ["select", "with"] with
    | false => rfl
    | true =>
      cases s.unclosed? with
      | some what => rfl
      | none =>
        cases ((verb, start) :: rest).find? fun (p, _) => p.token.isComment with
        | some x => rfl
        | none =>
          dsimp only
          cases (verb :: rest.map Prod.fst).dropWhile (!·.token.isPunct ';') with
          | nil => rfl
          | cons p ps =>
            cases ps with
            | nil => rfl
            | cons q ps => rfl

/-- What a literal is not. -/
theorem literal_inside {t : Token} (h : t.kind = .stringLiteral) :
    isUnclosed t = false ∧ t.isComment = false ∧ (∀ c, t.isPunct c = false) ∧
      t.isAnyKeyword ["select", "with"] = false := by
  refine ⟨?_, ?_, fun c => ?_, isAnyKeyword_of_kind (by simp [h]) _⟩
  · rw [isUnclosed, h]
  · rw [isComment, h]
  · rw [isPunct, h]
    rfl

theorem dropWhile_literal {p : Piece} (q : Token → Bool) (hp : q p.token = false) (before behind : List Piece) :
    (before ++ p :: behind).dropWhile (q ·.token) = before.dropWhile (q ·.token) ++ p :: behind := by
  rw [List.dropWhile_append]
  split
  · rename_i hnil
    rw [List.isEmpty_iff.1 hnil, List.dropWhile_cons_of_neg (by simp [hp]), List.nil_append]
  · rfl

theorem any_literal {p : Piece} (q : Token → Bool) (hp : q p.token = false) (before behind : List Piece) :
    (before ++ p :: behind).any (q ·.token) = (before ++ behind).any (q ·.token) := by
  rw [List.any_append, List.any_append, List.any_cons, hp, Bool.false_or]

/-- A semicolon in front of other pieces has more behind it than itself. -/
theorem stacked_literal {p : Piece} (hp : p.token.isPunct ';' = false) (before behind : List Piece) :
    decide (2 ≤ ((before ++ p :: behind).dropWhile (!·.token.isPunct ';')).length) =
      (before.any (·.token.isPunct ';') || decide (2 ≤ (behind.dropWhile (!·.token.isPunct ';')).length)) := by
  rw [List.dropWhile_append]
  cases hnil : before.dropWhile (!·.token.isPunct ';') with
  | nil =>
    have hnone : before.any (·.token.isPunct ';') = false := by
      rw [List.dropWhile_eq_nil_iff] at hnil
      rw [List.any_eq_false]
      intro x hx
      simpa using hnil x hx
    rw [hnone, List.isEmpty_nil, if_pos rfl, List.dropWhile_cons_of_pos (by simp [hp]), Bool.false_or]
  | cons x xs =>
    have hsome : before.any (·.token.isPunct ';') = true := by
      rw [List.any_eq_true]
      refine ⟨x, ?_, ?_⟩
      · exact (List.dropWhile_sublist _).mem (by rw [hnil]; exact List.mem_cons_self)
      · have hhead := List.head?_dropWhile_not (fun p : Piece => !p.token.isPunct ';') before
        rw [hnil] at hhead
        simpa using hhead
    rw [hsome, Bool.true_or, decide_eq_true_eq]
    simp
    omega

theorem dropWhile_isOutside {t : Token} (ht : t.kind = .stringLiteral) (before : List Piece) (blanks : List Char)
    (behind : List Piece) : (before ++ ⟨blanks, t⟩ :: behind).dropWhile (isOutside ·.token) =
      before.dropWhile (isOutside ·.token) ++ ⟨blanks, t⟩ :: behind := by
  obtain ⟨-, hcomment, hpunct, -⟩ := literal_inside ht
  exact dropWhile_literal isOutside (by rw [isOutside, hcomment, hpunct, Bool.or_self]) before behind

/-- A text with a literal holds more than one statement, or is not closed. Of `before`, what stands in front of the
statement is left out in `front`. -/
def isStacked (before front behind : List Piece) : Bool :=
  (before ++ behind).any (isUnclosed ·.token) || (front ++ behind).any (·.token.isComment) ||
    (front.any (·.token.isPunct ';') || decide (2 ≤ (behind.dropWhile (!·.token.isPunct ';')).length))

theorem found_inside {before front behind : List Piece} {verb : Piece}
    (hfront : before.dropWhile (isOutside ·.token) = verb :: front)
    (hverb : verb.token.isAnyKeyword ["select", "with"] = true) (blanks : List Char) {t : Token}
    (ht : t.kind = .stringLiteral) : found (before ++ ⟨blanks, t⟩ :: behind) =
      if isStacked before (verb :: front) behind then .error Rejection.stacked.code
      else .ok (((verb :: front) ++ ⟨blanks, t⟩ :: behind).takeWhile (!·.token.isPunct ';')) := by
  obtain ⟨hunclosed, hcomment, hpunct, -⟩ := literal_inside ht
  rw [found, dropWhile_isOutside ht, hfront, List.cons_append]
  dsimp only
  rw [← List.cons_append, stacked_literal (hpunct ';'), any_literal isUnclosed hunclosed,
    any_literal isComment hcomment, hverb]
  rfl

/-- There is a statement for every literal or for none, and each literal stands at the same place of its statement. -/
theorem found_literal (before : List Piece) (blanks : List Char) (behind : List Piece) :
    (∃ code, ∀ t : Token, t.kind = .stringLiteral → found (before ++ ⟨blanks, t⟩ :: behind) = .error code) ∨
      ∃ front rest, front ≠ [] ∧ ∀ t : Token, t.kind = .stringLiteral →
        found (before ++ ⟨blanks, t⟩ :: behind) = .ok (front ++ ⟨blanks, t⟩ :: rest) := by
  -- the literal stands in the place of the verb, or behind one
  cases hfront : before.dropWhile (isOutside ·.token) with
  | nil =>
    refine .inl ⟨(Rejection.notSelect "").code, fun t ht => ?_⟩
    obtain ⟨-, -, -, hword⟩ := literal_inside ht
    rw [found, dropWhile_isOutside ht, hfront, List.nil_append]
    simp only [hword, Bool.not_false, if_true]
  | cons verb front =>
    cases hverb : verb.token.isAnyKeyword ["select", "with"] with
    | false =>
      refine .inl ⟨(Rejection.notSelect "").code, fun t ht => ?_⟩
      rw [found, dropWhile_isOutside ht, hfront, List.cons_append]
      simp only [hverb, Bool.not_false, if_true]
    | true =>
      cases hstacked : isStacked before (verb :: front) behind with
      | true =>
        refine .inl ⟨Rejection.stacked.code, fun t ht => ?_⟩
        rw [found_inside hfront hverb blanks ht, hstacked]
        rfl
      | false =>
        refine .inr ⟨verb :: front, behind.takeWhile (!·.token.isPunct ';'), List.cons_ne_nil _ _, fun t ht => ?_⟩
        obtain ⟨-, -, hpunct, -⟩ := literal_inside ht
        have hsingle := (Bool.or_eq_false_iff.1 (Bool.or_eq_false_iff.1 hstacked).2).1
        have hall : ∀ p ∈ verb :: front, (!p.token.isPunct ';') = true := fun p hp => by
          simpa using List.any_eq_false.1 hsingle p hp
        rw [found_inside hfront hverb blanks ht, hstacked, List.takeWhile_append_of_pos hall,
          List.takeWhile_cons_of_pos (by simp [hpunct])]
        rfl

/-! ## Verdicts -/

theorem statement_literal (before : List Piece) (blanks : List Char) (behind : List Piece) (trailing : List Char) :
    (∃ code, ∀ t : Token, t.kind = .stringLiteral → ∃ reason : Rejection, reason.code = code ∧
        statement ⟨before ++ ⟨blanks, t⟩ :: behind, trailing⟩ = .error reason) ∨
      ∃ front rest, front ≠ [] ∧ ∀ t : Token, t.kind = .stringLiteral →
        statement ⟨before ++ ⟨blanks, t⟩ :: behind, trailing⟩ = .ok (front ++ ⟨blanks, t⟩ :: rest) := by
  rcases found_literal before blanks behind with ⟨code, h⟩ | ⟨front, rest, hne, h⟩
  · refine .inl ⟨code, fun t ht => ?_⟩
    have hfound := (found_pieces ⟨before ++ ⟨blanks, t⟩ :: behind, trailing⟩).trans (h t ht)
    cases hs : statement ⟨before ++ ⟨blanks, t⟩ :: behind, trailing⟩ with
    | error reason =>
      rw [hs] at hfound
      exact ⟨reason, Except.error.inj hfound, rfl⟩
    | ok pieces =>
      rw [hs] at hfound
      cases hfound
  · refine .inr ⟨front, rest, hne, fun t ht => ?_⟩
    have hfound := (found_pieces ⟨before ++ ⟨blanks, t⟩ :: behind, trailing⟩).trans (h t ht)
    cases hs : statement ⟨before ++ ⟨blanks, t⟩ :: behind, trailing⟩ with
    | error reason =>
      rw [hs] at hfound
      cases hfound
    | ok pieces =>
      rw [hs] at hfound
      exact congrArg Except.ok (Except.ok.inj hfound)

/-- Texts that differ in one literal are rejected for reasons with the same code, or all of them are run, each with its
literal at the same place. -/
theorem assess_literal (policy : Policy) (supplied : Option Nat) (before : List Piece) (blanks : List Char)
    (behind : List Piece) (trailing : List Char) :
    (∃ code, ∀ sql t, t.kind = .stringLiteral → Scan.ofString sql = ⟨before ++ ⟨blanks, t⟩ :: behind, trailing⟩ →
        ∃ reason : Rejection, reason.code = code ∧ assess policy sql supplied = .error reason) ∨
      ∃ front rest change, ∀ sql t, t.kind = .stringLiteral →
        Scan.ofString sql = ⟨before ++ ⟨blanks, t⟩ :: behind, trailing⟩ →
          assess policy sql supplied = .ok (String.ofList (front ++ t.text ++ rest), change) := by
  rcases statement_literal before blanks behind trailing with ⟨code, h⟩ | ⟨front, rest, hne, h⟩
  · refine .inl ⟨code, fun sql t ht hscan => ?_⟩
    obtain ⟨reason, hcode, hs⟩ := h t ht
    refine ⟨reason, hcode, ?_⟩
    rw [assess, hscan, hs]
    rfl
  · -- the checks see that the token is a literal, and not which one
    have hchecks : ∀ t : Token, t.kind = .stringLiteral →
        checkTokens policy ((front ++ ⟨blanks, t⟩ :: rest).map Piece.token) supplied =
          checkTokens policy ((front ++ ⟨blanks, literalOf []⟩ :: rest).map Piece.token) supplied := by
      intro t ht
      rw [List.map_append, List.map_append]
      exact checkTokens_literal policy supplied ht rfl _ _
    cases hliteral : checkTokens policy ((front ++ ⟨blanks, literalOf []⟩ :: rest).map Piece.token) supplied with
    | error reason =>
      refine .inl ⟨reason.code, fun sql t ht hscan => ⟨reason, rfl, ?_⟩⟩
      have hs := h t ht
      rw [← hscan] at hs
      rw [assess_eq policy supplied hs, hchecks t ht, hliteral]
      rfl
    | ok =>
      obtain ⟨xs, ys, change, hrows⟩ := boundRows_literal policy hne blanks rest
      refine .inr ⟨xs, ys, change, fun sql t ht hscan => ?_⟩
      have hs := h t ht
      rw [← hscan] at hs
      rw [assess_eq policy supplied hs, hchecks t ht, hliteral, hrows t ht]
      rfl

/-- Whatever is written in a literal, the outcome and the codes of the reasons are the same, and the text to run holds
it where it held the literal of the text that was given. -/
theorem verdict_withLiteral {sql : String} {before behind : List Piece} {p : Piece}
    (hscan : (Scan.ofString sql).pieces = before ++ p :: behind) (hp : PlainLiteral p.token) (policy : Policy)
    (supplied : Option Nat) :
    let other := withLiteral before p behind (Scan.ofString sql).trailing
    (∀ w, (validate policy (other w) supplied).outcome = (validate policy sql supplied).outcome ∧
      (validate policy (other w) supplied).reasons.map Prod.fst =
        (validate policy sql supplied).reasons.map Prod.fst) ∧
      ∀ text change, assess policy sql supplied = .ok (text, change) →
        ∃ front rest, text = String.ofList (front ++ p.token.text ++ rest) ∧
          ∀ w : String, assess policy (other w) supplied =
            .ok (String.ofList (front ++ Text.quote '\'' w.toList ++ rest), change) := by
  intro other
  have hsql : Scan.ofString sql = ⟨before ++ ⟨p.blanks, p.token⟩ :: behind, (Scan.ofString sql).trailing⟩ := by
    rw [← hscan]
  have hother := scan_withLiteral hscan hp
  -- the verdict on one literal is the verdict on all of them
  rcases assess_literal policy supplied before p.blanks behind (Scan.ofString sql).trailing with
    ⟨code, h⟩ | ⟨front, rest, change, h⟩
  · obtain ⟨reason, hcode, hreason⟩ := h sql p.token hp.kind hsql
    refine ⟨fun w => ?_, fun text change hok => ?_⟩
    · obtain ⟨reason', hcode', hreason'⟩ := h (other w) _ rfl (hother w)
      rw [validate, validate, hreason, hreason']
      exact ⟨rfl, congrArg ([·]) (hcode'.trans hcode.symm)⟩
    · rw [hreason] at hok
      cases hok
  · have hrun := h sql p.token hp.kind hsql
    have hrun' := fun w => h (other w) _ rfl (hother w)
    refine ⟨fun w => ?_, fun text change hok => ?_⟩
    · rw [validate, validate, hrun, hrun' w]
      cases change with
      | none => exact ⟨rfl, rfl⟩
      | some change => exact ⟨rfl, rfl⟩
    · rw [hrun] at hok
      obtain ⟨rfl, rfl⟩ := Prod.mk.inj (Except.ok.inj hok)
      exact ⟨front, rest, rfl, hrun'⟩

/-- Whatever stands in the literal of this statement, the statement is run inside of one with a literal limit. -/
theorem verdict_withLiteral_bounded :
    let sql := "SELECT a FROM t WHERE b = 'x' LIMIT $1"
    let text := "SELECT * FROM (SELECT a FROM t WHERE b = 'x' LIMIT $1) AS \"geoview_limited\" LIMIT 1000"
    ∃ before behind p, (Scan.ofString sql).pieces = before ++ p :: behind ∧ PlainLiteral p.token ∧
      assess {} sql (some 1) = .ok (text, some (.bounded 1000)) ∧
        (∀ w, (validate {} (withLiteral before p behind (Scan.ofString sql).trailing w) (some 1)).outcome = "REWRITE") ∧
          ∃ front rest, text = String.ofList (front ++ p.token.text ++ rest) ∧
            ∀ w : String, assess {} (withLiteral before p behind (Scan.ofString sql).trailing w) (some 1) =
              .ok (String.ofList (front ++ Text.quote '\'' w.toList ++ rest), some (.bounded 1000)) := by
  intro sql text
  have hscan : Scan.ofString sql = scanWithin 40 sql.toList := ofChars_eq_scanWithin 40 (by decide)
  have hpieces : (Scan.ofString sql).pieces = (scanWithin 40 sql.toList).pieces.take 7 ++
      ⟨[' '], literalOf ['x']⟩ :: (scanWithin 40 sql.toList).pieces.drop 8 := by
    rw [hscan]
    decide +kernel
  have hplain : PlainLiteral (literalOf ['x']) := ⟨rfl, rfl⟩
  have hrun : assess {} sql (some 1) = .ok (text, some (.bounded 1000)) := by
    unfold assess
    rw [hscan]
    decide +kernel
  obtain ⟨hverdict, htext⟩ := verdict_withLiteral hpieces hplain {} (some 1)
  refine ⟨_, _, _, hpieces, hplain, hrun, fun w => ?_, htext text _ hrun⟩
  rw [(hverdict w).1, validate, hrun]
  rfl

end SpatialQuery.Safety
