import SpatialQuery.Proofs.Limit.First
import SpatialQuery.Proofs.Limit.Rewritten

/-!
Counts that are numbers. Whether a clause counts its rows by one literal does not depend on which
number that is, so lowering the number keeps the clause as it was.
-/

namespace SpatialQuery.RowLimit

open Token Lexical Validation

theorem isKeyword_of_isNumber {t : Token} (h : t.isNumber = true) (keyword : String) :
    t.isKeyword keyword = false := by
  have hk : t.kind = .number := eq_of_beq h
  simp [isKeyword, hk]

theorem isAnyKeyword_of_isNumber {t : Token} (h : t.isNumber = true) (keywords : List String) :
    t.isAnyKeyword keywords = false := by
  have hk : t.kind = .number := eq_of_beq h
  exact isAnyKeyword_of_kind (by simp [hk]) keywords

theorem isNumber_countToken (n : Nat) : (countToken n).isNumber = true := rfl

/-- The clause of `LIMIT` has its count next, the clause of `FETCH` behind one more token. -/
def CountBehind (keyword : Token) (between : List Token) : Prop :=
  keyword.isKeyword "limit" = true ∧ between = [] ∨
    keyword.isKeyword "fetch" = true ∧ ∃ first, between = [first]

theorem counts_number {keyword : Token} {between : List Token} (rest : List Token)
    (h : CountBehind keyword between) :
    ∃ P : Prop, ∀ count v, count.isNumber = true →
      (Counts keyword (between ++ count :: rest) v ↔ v = value count.text ∧ P) := by
  rcases h with ⟨hk, rfl⟩ | ⟨hk, first, rfl⟩
  · have hfetch := not_isKeyword hk (b := "fetch") (by decide)
    -- The keyword decides the form of the clause, and the form what must follow the number.
    refine ⟨∀ t ∈ rest.head?, t.isAnyKeyword ["offset", "for"] = true, fun count v hn => ?_⟩
    constructor
    · intro hc
      cases hc with
      | limit _ _ hrest => exact ⟨rfl, hrest⟩
      | fetch hk' => simp [hfetch] at hk'
      | fetchRow hk' => simp [hfetch] at hk'
    · rintro ⟨rfl, hrest⟩
      exact .limit hk hn hrest
  · have hlimit := not_isKeyword hk (b := "limit") (by decide)
    refine ⟨first.isAnyKeyword ["first", "next"] = true ∧ ∃ rows only behind,
      rest = rows :: only :: behind ∧ rows.isAnyKeyword ["row", "rows"] = true ∧
        only.isKeyword "only" = true, fun count v hn => ?_⟩
    constructor
    · intro hc
      cases hc with
      | limit hk' => simp [hlimit] at hk'
      | fetch _ hfirst _ hrows honly => exact ⟨rfl, hfirst, _, _, _, rfl, hrows, honly⟩
      | fetchRow _ _ hrows => simp [isAnyKeyword_of_isNumber hn] at hrows
    · rintro ⟨rfl, hfirst, rows, only, behind, rfl, hrows, honly⟩
      exact .fetch hk hfirst hn hrows honly

theorem not_offset_of_row {t : Token} (h : t.isAnyKeyword ["row", "rows"] = true) :
    t.isAnyKeyword ["offset", "for"] = false := by
  simp only [isAnyKeyword, List.any_cons, List.any_nil, Bool.or_false, Bool.or_eq_true,
    Bool.or_eq_false_iff] at h ⊢
  rcases h with h | h
  · exact ⟨not_isKeyword h (by decide), not_isKeyword h (by decide)⟩
  · exact ⟨not_isKeyword h (by decide), not_isKeyword h (by decide)⟩

theorem boundedBehind_cons_number {m : Nat} (front : List Token) {count : Token} {rest : List Token}
    (hn : count.isNumber = true) :
    BoundedBehind m front (count :: rest) ↔ BoundedBehind m (front ++ [count]) rest := by
  rw [boundedBehind_cons, or_iff_right]
  rintro ⟨-, -, v, -, hc⟩
  have hk := hc.isKeyword
  rw [isAnyKeyword_of_isNumber hn] at hk
  cases hk

/-- No clause begins between the keyword and the end of its count. -/
theorem boundedBehind_number {m : Nat} {front between rest : List Token}
    (hbetween : between = [] ∨
      (∃ first, between = [first]) ∧ ∃ t ∈ rest.head?, t.isAnyKeyword ["row", "rows"] = true)
    {count : Token} (hn : count.isNumber = true) :
    BoundedBehind m front (between ++ count :: rest) ↔
      BoundedBehind m (front ++ between ++ [count]) rest := by
  rcases hbetween with rfl | ⟨⟨first, rfl⟩, t, ht, hrow⟩
  · rw [List.nil_append, boundedBehind_cons_number front hn, List.append_nil]
  · have hfirst : ¬ClauseAt m front first (count :: rest) := by
      rintro ⟨-, -, v, -, hc⟩
      cases hc with
      | limit _ _ hrest =>
        have hoffset := hrest t ht
        rw [not_offset_of_row hrow] at hoffset
        cases hoffset
      | fetch _ hnext => simp [isAnyKeyword_of_isNumber hn] at hnext
      | fetchRow _ hnext => simp [isAnyKeyword_of_isNumber hn] at hnext
    rw [List.singleton_append, boundedBehind_cons, or_iff_right hfirst,
      boundedBehind_cons_number _ hn]

/-- One number is as good as another in front of what follows. -/
theorem boundedBehind_recount {m : Nat} (front rest : List Token) {a b : Token}
    (ha : a.isNumber = true) (hb : b.isNumber = true) :
    BoundedBehind m (front ++ [a]) rest ↔ BoundedBehind m (front ++ [b]) rest := by
  have hkind : ∀ {t : Token}, t.isNumber = true → depthAfter (front ++ [t]) = depthAfter front ∧
      ¬EndsInLabel (front ++ [t]) := by
    intro t ht
    have hk : t.kind = .number := eq_of_beq ht
    constructor
    · simp [depthAfter, depthStep, isPunct, hk]
    · rw [endsInLabel_concat]
      simp [isKeyword, isPunct, hk]
  apply boundedBehind_congr
  · rw [(hkind ha).1, (hkind hb).1]
  · exact iff_of_false (hkind ha).2 (hkind hb).2

end SpatialQuery.RowLimit
