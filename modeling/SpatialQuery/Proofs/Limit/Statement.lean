import SpatialQuery.Proofs.Lexical.Plain
import SpatialQuery.Validation

/-!
The pieces of a statement that passes validation: they are read from the text of the statement alone,
and hold no comment and nothing unclosed.
-/

namespace SpatialQuery.RowLimit

open Token Lexical Validation

/-- The pieces without the blanks in front of the first one. -/
def headed : List Piece → List Piece
  | [] => []
  | p :: ps => ⟨[], p.token⟩ :: ps

theorem text_headed (ps : List Piece) : Scan.text ⟨headed ps, []⟩ = statementText ps := by
  cases ps with
  | nil => rfl
  | cons p ps => simp [headed, statementText, Scan.text, Piece.text]

theorem tokens_headed (ps : List Piece) : (headed ps).map Piece.token = ps.map Piece.token := by
  cases ps <;> rfl

theorem headed_append {ps : List Piece} (hne : ps ≠ []) (qs : List Piece) :
    headed (ps ++ qs) = headed ps ++ qs := by
  obtain ⟨p, ps, rfl⟩ := List.exists_cons_of_ne_nil hne
  rfl

theorem readable_headed {ps : List Piece} {trailing : List Char} (h : Readable ⟨ps, trailing⟩) :
    Readable ⟨headed ps, trailing⟩ := by
  cases ps with
  | nil => exact h
  | cons p ps =>
    obtain ⟨-, hl, hrest⟩ := readable_cons.1 h
    exact readable_cons.2 ⟨by simp, hl, hrest⟩

/-- The token ends by itself, and is no comment. -/
structure Settled (t : Token) : Prop where
  closed : ∀ what, t.kind ≠ .unclosed what
  code : t.isComment = false

theorem Settled.not_lineComment {t : Token} (h : Settled t) : t.kind ≠ .lineComment := by
  intro hk
  have hc := h.code
  rw [isComment, hk] at hc
  cases hc

/-- The token stands outside of every statement. -/
def isOutside (t : Token) : Bool :=
  t.isComment || t.isPunct ';'

/-- Only a semicolon stands behind the first semicolon of what is no stack of statements. -/
theorem outside_of_unstacked {ps qs : List Piece} (hqs : ps.dropWhile (!·.token.isPunct ';') = qs)
    (hsingle : ∀ p q rest, qs ≠ p :: q :: rest) : ∀ p ∈ qs, isOutside p.token = true := by
  have hhead := List.head?_dropWhile_not (fun p : Piece => !p.token.isPunct ';') ps
  rw [hqs] at hhead
  rcases qs with _ | ⟨q, _ | ⟨r, qs⟩⟩
  · exact List.forall_mem_nil _
  · have hsemicolon : q.token.isPunct ';' = true := by simpa using hhead
    rw [List.forall_mem_singleton, isOutside, hsemicolon, Bool.or_true]
  · exact absurd rfl (hsingle q r qs)

/-- What is found of a text whose statement is accepted. -/
theorem statement_ok {s : Scan} {pieces : List Piece} (h : statement s = .ok pieces) :
    ∃ lead verb rest, s.pieces = lead ++ verb :: rest ∧ (∀ p ∈ lead, isOutside p.token = true) ∧
      verb.token.isAnyKeyword ["select", "with"] = true ∧ s.unclosed? = none ∧
      (∀ p ∈ verb :: rest, p.token.isComment = false) ∧
      pieces = (verb :: rest).takeWhile (!·.token.isPunct ';') ∧
      ∀ p ∈ (verb :: rest).dropWhile (!·.token.isPunct ';'), isOutside p.token = true := by
  unfold statement at h
  split at h
  · cases h
  rename_i verb start rest hdrop
  split at h
  · cases h
  rename_i hverb
  split at h
  · cases h
  rename_i hunclosed
  simp only at h
  split at h
  · cases h
  rename_i hcomment
  split at h
  · cases h
  rename_i hsingle
  obtain ⟨lead, hlead, hleading⟩ : ∃ lead, lead ++ (verb, start) :: rest = s.located ∧
      ∀ x ∈ lead, isOutside x.1.token = true := by
    rw [← hdrop]
    exact ⟨_, List.takeWhile_append_dropWhile, fun x => List.mem_takeWhile_imp⟩
  refine ⟨lead.map Prod.fst, verb, rest.map Prod.fst, ?_, ?_, by simpa using hverb, hunclosed, ?_,
    (Except.ok.inj h).symm, outside_of_unstacked rfl hsingle⟩
  · rw [← map_fst_located s, ← hlead, List.map_append, List.map_cons]
  · rwa [List.forall_mem_map]
  · change ∀ p ∈ ((verb, start) :: rest).map Prod.fst, p.token.isComment = false
    rw [List.forall_mem_map]
    intro x hx
    simpa using List.find?_eq_none.1 hcomment x hx

/-- Where a statement is found in a scan, and what is known of its tokens. -/
theorem statement_spec {s : Scan} {pieces : List Piece} (h : statement s = .ok pieces) :
    ∃ before behind, s.pieces = before ++ (pieces ++ behind) ∧
      (∀ p ∈ before, isOutside p.token = true) ∧ (∀ p ∈ behind, isOutside p.token = true) ∧
      (∃ verb ∈ pieces.head?, verb.token.isAnyKeyword ["select", "with"] = true) ∧
      ∀ p ∈ pieces, Settled p.token ∧ p.token.isPunct ';' = false := by
  obtain ⟨lead, verb, rest, hpieces, hlead, hverb, hunclosed, hcode, rfl, hbehind⟩ := statement_ok h
  have hword : verb.token.kind = .word := word_of_isAnyKeyword hverb
  refine ⟨lead, _, ?_, hlead, hbehind, ⟨verb, ?_, hverb⟩, fun p hp => ?_⟩
  · rw [List.takeWhile_append_dropWhile, hpieces]
  · rw [List.takeWhile_cons_of_pos (by simp [isPunct, hword])]
    rfl
  · have hsemicolon := List.mem_takeWhile_imp hp
    have hmem := (List.takeWhile_prefix _).subset hp
    refine ⟨⟨unclosed?_eq_none_iff.1 hunclosed p ?_, hcode p hmem⟩, by simpa using hsemicolon⟩
    rw [hpieces]
    exact List.mem_append_right lead hmem

/-- A scan of nothing but a statement. -/
theorem statement_eq {s : Scan}
    (hverb : ∃ p ∈ s.pieces.head?, p.token.isAnyKeyword ["select", "with"] = true)
    (h : ∀ p ∈ s.pieces, Settled p.token ∧ p.token.isPunct ';' = false) : statement s = .ok s.pieces := by
  have hunclosed : s.unclosed? = none := unclosed?_eq_none_iff.2 fun p hp => (h p hp).1.closed
  have hlocated := map_fst_located s
  have hall : ∀ x ∈ s.located, x.1.token.isComment = false ∧ x.1.token.isPunct ';' = false := by
    intro x hx
    have hp := h x.1 (by rw [← hlocated]; exact List.mem_map_of_mem hx)
    exact ⟨hp.1.code, hp.2⟩
  obtain ⟨verb, hhead, hverb⟩ := hverb
  rw [← hlocated, List.head?_map] at hhead
  obtain ⟨x, hx, rfl⟩ := Option.map_eq_some_iff.1 hhead
  obtain ⟨rest, hrest⟩ : ∃ rest, s.located = x :: rest := by
    cases hs : s.located with
    | nil => simp [hs] at hx
    | cons y rest =>
      rw [hs, List.head?_cons, Option.some.injEq] at hx
      exact ⟨rest, by rw [hx]⟩
  -- for any form of the tests, since those of the definition match on pairs
  have hdrop : ∀ f : Piece × Nat → Bool, (∀ y, f y = (y.1.token.isComment || y.1.token.isPunct ';')) →
      s.located.dropWhile f = x :: rest := by
    intro f hf
    have hxall := hall x (by simp [hrest])
    rw [hrest, List.dropWhile_cons_of_neg]
    simp [hf, hxall]
  have hcomment : ∀ f : Piece × Nat → Bool, (∀ y, f y = y.1.token.isComment) →
      (x :: rest).find? f = none := by
    intro f hf
    rw [List.find?_eq_none, ← hrest]
    intro y hy
    simp [hf, (hall y hy).1]
  have hsingle : ∀ p ∈ s.pieces, (!p.token.isPunct ';') = true := fun p hp => by simp [(h p hp).2]
  unfold statement
  rw [hdrop _ fun _ => rfl, hunclosed]
  simp only [hverb, hcomment _ fun _ => rfl, Bool.not_true, Bool.false_eq_true, ↓reduceIte]
  rw [← hrest, hlocated, List.dropWhile_eq_nil_iff.2 hsingle, List.takeWhile_eq_self_iff.2 hsingle]

/-- The statement alone is read as it was in the whole text. -/
theorem readable_statement {cs : List Char} {pieces : List Piece}
    (h : statement (Scan.ofChars cs) = .ok pieces) :
    Readable ⟨headed pieces, []⟩ ∧ pieces ≠ [] ∧ ∀ p ∈ headed pieces, Settled p.token := by
  obtain ⟨before, behind, hpieces, -, -, ⟨verb, hverb, -⟩, hall⟩ := statement_spec h
  have hsettled : ∀ p ∈ pieces, Settled p.token := fun p hp => (hall p hp).1
  have hne : pieces ≠ [] := by
    rintro rfl
    cases hverb
  have hheaded : ∀ p ∈ headed pieces, Settled p.token := by
    intro p hp
    have hmem := List.mem_map_of_mem (f := Piece.token) hp
    rw [tokens_headed] at hmem
    obtain ⟨q, hq, he⟩ := List.mem_map.1 hmem
    rw [← he]
    exact hsettled q hq
  have hall := readable_ofChars cs
  generalize hs : Scan.ofChars cs = s at hall hpieces
  obtain ⟨ps, trailing⟩ := s
  obtain rfl : ps = before ++ (pieces ++ behind) := hpieces
  have hrest := readable_headed (readable_of_append hall)
  rw [headed_append hne] at hrest
  have hend : ∀ c ∈ (Scan.text ⟨[], []⟩).head?, isSeparator c = true := by simp
  have hstmt := readable_append_separator hrest (s := ⟨[], []⟩) (readable_nil.2 (by simp))
    (fun p hp => (hheaded p hp).closed) (fun p hp => (hheaded p hp).not_lineComment) hend
  rw [List.append_nil] at hstmt
  exact ⟨hstmt, hne, hheaded⟩

/-- A text with a statement is rejected by the checks of its tokens only. -/
theorem assess_eq (policy : Policy) {sql : String} (supplied : Option Nat) {pieces : List Piece}
    (h : statement (Scan.ofString sql) = .ok pieces) : assess policy sql supplied =
      (checkTokens policy (pieces.map Piece.token) supplied).map fun _ =>
        (String.ofList (boundRows policy pieces).1, (boundRows policy pieces).2) := by
  unfold assess
  rw [h]
  change (checkTokens policy (pieces.map Piece.token) supplied >>= _) = _
  cases checkTokens policy (pieces.map Piece.token) supplied <;> rfl

theorem assess_ok_iff {policy : Policy} {sql : String} {supplied : Option Nat}
    {out : String × Option LimitChange} : assess policy sql supplied = .ok out ↔
      ∃ pieces, statement (Scan.ofString sql) = .ok pieces ∧
        checkTokens policy (pieces.map Piece.token) supplied = .ok () ∧
          out = (String.ofList (boundRows policy pieces).1, (boundRows policy pieces).2) := by
  cases hs : statement (Scan.ofString sql) with
  | error reason =>
    unfold assess
    rw [hs]
    constructor
    · intro h
      cases h
    · rintro ⟨pieces, h, -⟩
      cases h
  | ok pieces =>
    rw [assess_eq policy supplied hs]
    cases hc : checkTokens policy (pieces.map Piece.token) supplied with
    | error reason =>
      constructor
      · intro h
        cases h
      · rintro ⟨_, h, hc', -⟩
        cases h
        rw [hc] at hc'
        cases hc'
    | ok =>
      constructor
      · intro h
        exact ⟨pieces, rfl, hc, (Except.ok.inj h).symm⟩
      · rintro ⟨_, h, -, rfl⟩
        cases h
        rfl

theorem assess_ok {policy : Policy} {sql text : String} {supplied : Option Nat}
    {change : Option LimitChange} (h : assess policy sql supplied = .ok (text, change)) :
    ∃ pieces, statement (Scan.ofString sql) = .ok pieces ∧
      checkTokens policy (pieces.map Piece.token) supplied = .ok () ∧
        text = String.ofList (boundRows policy pieces).1 := by
  obtain ⟨pieces, hs, hc, ho⟩ := assess_ok_iff.1 h
  exact ⟨pieces, hs, hc, congrArg Prod.fst ho⟩

end SpatialQuery.RowLimit
