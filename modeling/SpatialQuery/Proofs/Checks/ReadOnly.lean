import Mathlib.Data.List.Chain
import SpatialQuery.Proofs.Except
import SpatialQuery.Proofs.Limit.Statement

/-!
What the checks let pass. A statement only reads if each of its tokens is allowed, and no two in a row
lock rows or call a function that changes the server (`ReadOnly`). Two such lists of tokens make a
longer one wherever the tokens at the seam are harmless together.
-/

namespace SpatialQuery.Safety

open Token Lexical Validation RowLimit

/-- A token that may stand anywhere in a statement that only reads. -/
structure Allowed (policy : Policy) (t : Token) : Prop where
  settled : Settled t
  single : t.isPunct ';' = false
  keyword : t.isAnyKeyword writeKeywords = false
  into : t.isKeyword "into" = false
  union : policy.allowUnion = false → t.isKeyword "union" = false

/-- Two tokens in a row that begin no locking clause and no call of a blocked function. -/
structure Harmless (t next : Token) : Prop where
  lock : t.isKeyword "for" = true → next.isAnyKeyword ["update", "share", "key", "no"] = false
  call : next.isPunct '(' = true → ∀ name ∈ t.name?, name ∉ blockedFunctions

/-- The tokens of a statement that only reads. -/
structure ReadOnly (policy : Policy) (ts : List Token) : Prop where
  verb : ∃ t ∈ ts.head?, t.isAnyKeyword ["select", "with"] = true
  allowed : ∀ t ∈ ts, Allowed policy t
  harmless : ts.IsChain Harmless

/-! ## The checks -/

/-- A token is let pass for what it is, and for what it does together with the next one. -/
theorem writes?_eq_none_iff {t : Token} {next : Option Token} : writes? t next = none ↔
    t.isAnyKeyword writeKeywords = false ∧ t.isKeyword "into" = false ∧
      (∀ u ∈ next, t.isKeyword "for" = true → u.isAnyKeyword ["share", "key", "no"] = false) ∧
        ∀ u ∈ next, u.isPunct '(' = true → ∀ name ∈ t.name?, name ∉ blockedFunctions := by
  have hcall : (∀ u ∈ next, u.isPunct '(' = true → ∀ name ∈ t.name?, name ∉ blockedFunctions) ↔
      t.name?.filter (fun name => next.any (·.isPunct '(') && blockedFunctions.contains name) = none := by
    rw [Option.filter_eq_none_iff]
    cases next with
    | none => simp
    | some u =>
      simp only [Option.mem_def, Option.some.injEq, forall_eq', Option.any_some, List.contains_eq_mem,
        Bool.and_eq_true, decide_eq_true_eq, not_and]
      exact ⟨fun h name hn hp => h hp name hn, fun h hp name hn => h name hn hp⟩
  have hkeyword : t.isAnyKeyword writeKeywords = false ↔ writeKeywords.find? t.isKeyword = none := by
    rw [List.find?_eq_none, isAnyKeyword, List.any_eq_false]
  have hlock : (∀ u ∈ next, t.isKeyword "for" = true → u.isAnyKeyword ["share", "key", "no"] = false) ↔
      (t.isKeyword "for" && next.any (·.isAnyKeyword ["share", "key", "no"])) = false := by
    cases next <;> simp
  -- Each of the four tests now stands on its own, in the order the search makes them.
  rw [hcall, hkeyword, hlock]
  unfold writes?
  cases t.name?.filter fun name => next.any (·.isPunct '(') && blockedFunctions.contains name with
  | some name => simp
  | none =>
    cases writeKeywords.find? t.isKeyword with
    | some keyword => simp
    | none =>
      cases t.isKeyword "into" <;>
        cases t.isKeyword "for" && next.any (·.isAnyKeyword ["share", "key", "no"]) <;> simp

theorem harmless_iff {t next : Token} (h : next.isAnyKeyword writeKeywords = false) :
    Harmless t next ↔ (t.isKeyword "for" = true → next.isAnyKeyword ["share", "key", "no"] = false) ∧
      (next.isPunct '(' = true → ∀ name ∈ t.name?, name ∉ blockedFunctions) := by
  -- the first word of `FOR UPDATE` that is refused is the second one
  have hupdate : next.isKeyword "update" = false := by
    have hk := isKeyword_of_isAnyKeyword h (by decide : "UPDATE" ∈ writeKeywords)
    simpa [isKeyword, Text.sameLetters] using hk
  have hlock : next.isAnyKeyword ["update", "share", "key", "no"] =
      next.isAnyKeyword ["share", "key", "no"] := by
    simp [isAnyKeyword, hupdate]
  constructor
  · rintro ⟨hl, hc⟩
    rw [hlock] at hl
    exact ⟨hl, hc⟩
  · rintro ⟨hl, hc⟩
    rw [← hlock] at hl
    exact ⟨hl, hc⟩

/-- What the check for writes lets pass. -/
theorem checkWrites_iff {ts : List Token} : checkWrites ts = .ok () ↔
    (∀ t ∈ ts, t.isAnyKeyword writeKeywords = false ∧ t.isKeyword "into" = false) ∧
      ts.IsChain Harmless := by
  induction ts with
  | nil => simp [checkWrites]
  | cons t ts ih =>
    have hstep : checkWrites (t :: ts) = .ok () ↔ writes? t ts.head? = none ∧ checkWrites ts = .ok () := by
      rw [checkWrites]
      cases writes? t ts.head? <;> simp
    rw [hstep, ih, writes?_eq_none_iff, List.isChain_cons, List.forall_mem_cons]
    constructor
    · rintro ⟨⟨hk, hi, hl, hc⟩, hts, hchain⟩
      exact ⟨⟨⟨hk, hi⟩, hts⟩, fun u hu =>
        (harmless_iff (hts u (List.mem_of_mem_head? hu)).1).2 ⟨hl u hu, hc u hu⟩, hchain⟩
    · rintro ⟨⟨⟨hk, hi⟩, hts⟩, hnext, hchain⟩
      have hpair := fun u hu => (harmless_iff (hts u (List.mem_of_mem_head? hu)).1).1 (hnext u hu)
      exact ⟨⟨hk, hi, fun u hu => (hpair u hu).1, fun u hu => (hpair u hu).2⟩, hts, hchain⟩

theorem checkUnion_iff {ts : List Token} :
    checkUnion false ts = .ok () ↔ ∀ t ∈ ts, t.isKeyword "union" = false := by
  induction ts with
  | nil => simp [checkUnion]
  | cons t ts ih =>
    rw [checkUnion, List.forall_mem_cons, ← ih]
    cases t.isKeyword "union" <;> simp

/-- Without a `UNION` the system catalogs are not looked for. -/
theorem checkUnion_ok (allowed : Bool) {ts : List Token} (h : ∀ t ∈ ts, t.isKeyword "union" = false) :
    checkUnion allowed ts = .ok () := by
  induction ts with
  | nil => rfl
  | cons t ts ih =>
    rw [List.forall_mem_cons] at h
    rw [checkUnion, h.1]
    exact ih h.2

/-- The checks take place one after the other. -/
theorem checkTokens_iff {policy : Policy} {ts : List Token} {supplied : Option Nat} :
    checkTokens policy ts supplied = .ok () ↔ checkUnion policy.allowUnion ts = .ok () ∧
      checkWrites ts = .ok () ∧ checkParameters ts supplied = .ok () ∧
        checkRelations policy ts = .ok () := by
  simp only [checkTokens, bind_ok_iff]
  constructor
  · rintro ⟨_, hunion, _, hwrites, _, hparameters, hrelations⟩
    exact ⟨hunion, hwrites, hparameters, hrelations⟩
  · rintro ⟨hunion, hwrites, hparameters, hrelations⟩
    exact ⟨_, hunion, _, hwrites, _, hparameters, hrelations⟩

/-- A statement that passes the checks only reads. -/
theorem readOnly_of_checks {policy : Policy} {s : Scan} {pieces : List Piece} {supplied : Option Nat}
    (hs : statement s = .ok pieces) (h : checkTokens policy (pieces.map Piece.token) supplied = .ok ()) :
    ReadOnly policy (pieces.map Piece.token) := by
  obtain ⟨-, -, -, -, -, ⟨verb, hverb, hk⟩, hall⟩ := statement_spec hs
  obtain ⟨hunion, hwrites, -, -⟩ := checkTokens_iff.1 h
  obtain ⟨hkeywords, hchain⟩ := checkWrites_iff.1 hwrites
  refine ⟨⟨verb.token, ?_, hk⟩, fun t ht => ?_, hchain⟩
  · rw [List.head?_map, hverb]
    rfl
  · obtain ⟨hkeyword, hinto⟩ := hkeywords t ht
    obtain ⟨p, hp, rfl⟩ := List.mem_map.1 ht
    refine ⟨(hall p hp).1, (hall p hp).2, hkeyword, hinto, fun hno => ?_⟩
    rw [hno] at hunion
    exact checkUnion_iff.1 hunion _ ht

/-- Tokens may follow each other if nothing happens at the seam. -/
theorem ReadOnly.append {policy : Policy} {ts us : List Token} (h : ReadOnly policy ts)
    (hallowed : ∀ u ∈ us, Allowed policy u) (hchain : us.IsChain Harmless)
    (hseam : ∀ t ∈ ts.getLast?, ∀ u ∈ us.head?, Harmless t u) : ReadOnly policy (ts ++ us) := by
  obtain ⟨verb, hverb, hk⟩ := h.verb
  refine ⟨⟨verb, List.mem_head?_append_of_mem_head? hverb, hk⟩, fun t ht => ?_,
    h.harmless.append hchain hseam⟩
  rcases List.mem_append.1 ht with ht | ht
  · exact h.allowed t ht
  · exact hallowed t ht

end SpatialQuery.Safety
