import SpatialQuery.Proofs.Query.Words

/-!
Nested groups: every parenthesis closes a group, and every group is closed. In front of other tokens only nested ones
are looked at (`Fits`), and what is left when something is skipped is nested, too.
-/

namespace SpatialQuery.Query

open Token Lexical Reads

/-- Every parenthesis closes a group that is open, of which there are `depth` in front, and none is left open. -/
def isNested : Nat → List Token → Bool
  | depth, [] => depth == 0
  | depth, t :: ts =>
    if t.isPunct '(' then isNested (depth + 1) ts
    else if t.isPunct ')' then
      match depth with
      | 0 => false
      | depth + 1 => isNested depth ts
    else isNested depth ts

section Close

variable {t : Token} (h : t.isPunct ')' = true)

include h

theorem isPunct_of_close {c : Char} (hc : c ≠ ')') : t.isPunct c = false := by
  have hk : t.kind = .punct ')' := eq_of_beq h
  simpa [Token.isPunct, hk] using hc.symm

theorem not_open_of_close : t.isPunct '(' = false :=
  isPunct_of_close h (by decide)

theorem name?_of_close : t.name? = none := by
  have hk : t.kind = .punct ')' := eq_of_beq h
  rw [Token.name?, hk]

theorem isKeyword_of_close (a : String) : t.isKeyword a = false := by
  have hk : t.kind = .punct ')' := eq_of_beq h
  rw [Token.isKeyword, hk]
  rfl

theorem isAnyKeyword_of_close (ws : List String) : t.isAnyKeyword ws = false :=
  List.any_eq_false.2 fun a _ => Bool.eq_false_iff.1 (isKeyword_of_close h a)

theorem isAlias_of_close : isAlias t = false := by
  have hk : t.kind = .punct ')' := eq_of_beq h
  rw [isAlias, hk]
  rfl

end Close

section Nested

variable {t : Token} {ts : List Token} {depth : Nat}

theorem isNested_open (ho : t.isPunct '(' = true) : isNested depth (t :: ts) = isNested (depth + 1) ts := by
  rw [isNested.eq_def]
  simp [ho]

theorem isNested_close (hc : t.isPunct ')' = true) : isNested (depth + 1) (t :: ts) = isNested depth ts := by
  rw [isNested.eq_def]
  simp [hc, not_open_of_close hc]

theorem isNested_close_zero (hc : t.isPunct ')' = true) : isNested 0 (t :: ts) = false := by
  rw [isNested.eq_def]
  simp [hc, not_open_of_close hc]

theorem isNested_flat (ho : t.isPunct '(' = false) (hc : t.isPunct ')' = false) :
    isNested depth (t :: ts) = isNested depth ts := by
  rw [isNested.eq_def]
  simp [ho, hc]

/-- The end of a group that is open in front of nested tokens is among them. -/
theorem isNested_groupEnd {e : Nat} (h : isNested (e + 1 + depth) ts = true) :
    ∃ t us, groupEnd e ts = t :: us ∧ isNested depth us = true := by
  induction ts generalizing e with
  | nil => simp [isNested] at h
  | cons t ts ih =>
    rw [groupEnd.eq_def]
    dsimp only
    cases ho : t.isPunct '(' with
    | true =>
      rw [isNested_open ho, Nat.add_right_comm, Nat.add_right_comm e] at h
      exact ih h
    | false =>
      cases hc : t.isPunct ')' with
      | false =>
        rw [isNested_flat ho hc] at h
        exact ih h
      | true =>
        cases e with
        | zero =>
          rw [Nat.zero_add, Nat.add_comm, isNested_close hc] at h
          exact ⟨t, ts, rfl, h⟩
        | succ e =>
          rw [Nat.add_right_comm _ 1 depth, isNested_close hc] at h
          exact ih h

end Nested

/-- If anything stands behind the tokens, they are nested. -/
def Fits (k : List Token) (depth : Nat) (ts : List Token) : Prop :=
  k ≠ [] → isNested depth ts = true

section Fits

variable {k : List Token} {depth : Nat} {t : Token} {ts : List Token}

theorem fits_open (ho : t.isPunct '(' = true) : Fits k depth (t :: ts) ↔ Fits k (depth + 1) ts := by
  rw [Fits, Fits, isNested_open ho]

theorem fits_close (hc : t.isPunct ')' = true) : Fits k (depth + 1) (t :: ts) ↔ Fits k depth ts := by
  rw [Fits, Fits, isNested_close hc]

theorem fits_flat (ho : t.isPunct '(' = false) (hc : t.isPunct ')' = false) :
    Fits k depth (t :: ts) ↔ Fits k depth ts := by
  rw [Fits, Fits, isNested_flat ho hc]

theorem fits_named (h : t.name?.isSome = true) : Fits k depth (t :: ts) ↔ Fits k depth ts := by
  have hkind : t.kind = .word ∨ t.kind = .quotedIdentifier := by
    rw [Token.name?] at h
    split at h
    · exact .inl ‹_›
    · exact .inr ‹_›
    · cases h
  exact fits_flat (isPunct_of_kind hkind _) (isPunct_of_kind hkind _)

theorem fits_keyword {a : String} (h : t.isKeyword a = true) : Fits k depth (t :: ts) ↔ Fits k depth ts :=
  fits_flat (isPunct_of_kind (.inl (word_of_isKeyword h)) _) (isPunct_of_kind (.inl (word_of_isKeyword h)) _)

theorem fits_comma (h : t.isPunct ',' = true) : Fits k depth (t :: ts) ↔ Fits k depth ts := by
  have hkind : t.kind = .punct ',' := eq_of_beq h
  exact fits_flat (by simp [Token.isPunct, hkind]) (by simp [Token.isPunct, hkind])

/-- Behind a token, another number of groups may be open. -/
theorem Fits.tail (h : Fits k depth (t :: ts)) : ∃ d, Fits k d ts := by
  cases ho : t.isPunct '(' with
  | true => exact ⟨depth + 1, (fits_open ho).1 h⟩
  | false =>
    cases hc : t.isPunct ')' with
    | false => exact ⟨depth, (fits_flat ho hc).1 h⟩
    | true =>
      cases depth with
      | zero => exact ⟨0, fun hne => absurd (h hne) (by simp [isNested_close_zero hc])⟩
      | succ depth => exact ⟨depth, (fits_close hc).1 h⟩

theorem Fits.leaveGroup (h : Fits k (depth + 1) ts) : Fits k depth (leaveGroup ts) := by
  intro hne
  have hnested := h hne
  rw [Nat.add_comm, ← Nat.zero_add 1] at hnested
  obtain ⟨t, us, hend, hus⟩ := isNested_groupEnd hnested
  rwa [Reads.leaveGroup, hend]

theorem Fits.skipGroup (h : Fits k depth ts) : Fits k depth (skipGroup ts) := by
  cases ts with
  | nil => exact h
  | cons t ts =>
    rw [Reads.skipGroup]
    split
    · exact ((fits_open ‹_›).1 h).leaveGroup
    · exact h

theorem Fits.skipKeyword (h : Fits k depth ts) (a : String) :
    Fits k depth (skipToken (·.isKeyword a) ts) := by
  cases ts with
  | nil => exact h
  | cons t ts =>
    rw [skipToken]
    split
    · exact (fits_keyword ‹_›).1 h
    · exact h

theorem Fits.dropWhile (h : Fits k depth ts) (ws : List String) :
    Fits k depth (ts.dropWhile (·.isAnyKeyword ws)) := by
  induction ts with
  | nil => exact h
  | cons t ts ih =>
    rw [List.dropWhile_cons]
    split
    · rename_i hword
      have hkind : t.kind = .word ∨ t.kind = .quotedIdentifier := .inl (word_of_isAnyKeyword hword)
      exact ih ((fits_flat (isPunct_of_kind hkind _) (isPunct_of_kind hkind _)).1 h)
    · exact h

theorem Fits.nameParts (h : Fits k depth ts) : Fits k depth (nameParts ts).2 := by
  fun_induction Reads.nameParts ts with
  | case1 dot t ts hdot part hname ih =>
    have hkind : dot.kind = .punct '.' := eq_of_beq hdot
    refine ih ((fits_named (by rw [hname]; rfl)).1 ((fits_flat ?_ ?_).1 h)) <;>
      simp [Token.isPunct, hkind]
  | _ => exact h

theorem fits_alias (h : isAlias t = true) : Fits k depth (t :: ts) ↔ Fits k depth ts := by
  have hkind : t.kind = .word ∨ t.kind = .quotedIdentifier := by
    simp only [isAlias, Bool.or_eq_true, Bool.and_eq_true, beq_iff_eq] at h
    rcases h with hk | ⟨hk, -⟩
    · exact .inr hk
    · exact .inl hk
  exact fits_flat (isPunct_of_kind hkind _) (isPunct_of_kind hkind _)

theorem Fits.skipAlias (h : Fits k depth ts) : Fits k depth (skipAlias ts) := by
  have hrest := h.skipKeyword "as"
  unfold Reads.skipAlias
  split
  · rename_i t rest heq
    rw [heq] at hrest
    split
    · exact ((fits_alias ‹_›).1 hrest).skipGroup
    · exact hrest
  · rename_i heq
    rwa [heq] at hrest

theorem Fits.item? {m : Option Mention} {rest : List Token} (h : Fits k depth ts)
    (hitem : Reads.item? ts = some (m, rest)) : Fits k depth rest := by
  cases ts with
  | nil => cases hitem
  | cons t ts =>
    rw [Reads.item?] at hitem
    split at hitem
    · cases hitem
      exact ((fits_open ‹_›).1 h).leaveGroup
    · split at hitem
      · cases hitem
      · rename_i first hname
        have hrest := ((fits_named (by rw [hname]; rfl)).1 h).nameParts
        dsimp only at hitem
        split at hitem
        · rename_i r rs hparts
          rw [hparts] at hrest
          split at hitem
          · cases hitem
            exact ((fits_open ‹_›).1 hrest).leaveGroup
          · cases hitem
            exact hrest
        · rename_i hparts
          cases hitem
          rwa [hparts] at hrest

theorem Fits.afterBinding? {rest : List Token} (h : Fits k depth ts)
    (hrest : Reads.afterBinding? ts = some rest) : Fits k depth rest := by
  have hgroup := h.skipGroup
  unfold Reads.afterBinding? at hrest
  split at hrest
  · rename_i t body heq
    rw [heq] at hgroup
    split at hrest
    · have hbody := (((fits_keyword ‹_›).1 hgroup).skipKeyword "not").skipKeyword "materialized"
      split at hrest
      · rename_i p query heq'
        rw [heq'] at hbody
        split at hrest
        · cases hrest
          exact ((fits_open ‹_›).1 hbody).leaveGroup
        · cases hrest
      · cases hrest
    · cases hrest
  · cases hrest

end Fits

end SpatialQuery.Query
