import Mathlib.Algebra.Field.Rat
import Mathlib.Data.List.TakeWhile
import SpatialQuery.Proofs.Lexical.Numeral
import SpatialQuery.Validation.Limit

/-!
How many rows a statement can return. A statement is bounded if a clause outside of all parentheses
counts its rows by one literal (`RowBounded`); numerals have the value that SQL gives them.
-/

namespace SpatialQuery.RowLimit

open Token

/-! ## The value of a numeral -/

/-- The digits of a numeral as one number. -/
def figures (cs : List Char) : Nat :=
  (cs.filter Char.isDigit).foldl (fun n c => 10 * n + Text.digitValue c) 0

def isMark (c : Char) : Bool :=
  c == 'e' || c == 'E'

/-- What stands behind the mark of an exponent. -/
def exponent : List Char → ℤ
  | '-' :: cs => -figures cs
  | cs => figures cs

/-- Underscores count for nothing; each digit behind the point divides by ten. -/
def value (num : List Char) : ℚ :=
  let mantissa := num.takeWhile (!isMark ·)
  let places := ((mantissa.dropWhile (· != '.')).filter Char.isDigit).length
  figures mantissa * 10 ^ (exponent ((num.dropWhile (!isMark ·)).drop 1) - places)

theorem figures_ofNat (n : Nat) : figures (Text.ofNat n) = n := by
  have hdigits : (Text.ofNat n).filter Char.isDigit = Text.ofNat n :=
    List.filter_eq_self.2 Text.isDigit_ofNat
  rw [figures, hdigits]
  exact Nat.ofDigitChars_ten_toDigits

theorem isMark_of_isDigit {c : Char} (h : c.isDigit = true) : isMark c = false := by
  rw [Bool.eq_false_iff]
  intro hm
  simp only [isMark, Bool.or_eq_true, beq_iff_eq] at hm
  rcases hm with rfl | rfl <;> cases h

/-- Digits alone are worth what they say. -/
theorem value_of_digits {cs : List Char} (h : ∀ c ∈ cs, c.isDigit = true) : value cs = figures cs := by
  have hmark : ∀ c ∈ cs, (!isMark c) = true := fun c hc => by simp [isMark_of_isDigit (h c hc)]
  have hpoint : ∀ c ∈ cs, (c != '.') = true := by
    intro c hc
    rw [bne_iff_ne]
    rintro rfl
    exact absurd (h _ hc) (by decide)
  have htake : cs.takeWhile (!isMark ·) = cs := List.takeWhile_eq_self_iff.2 hmark
  have hdrop : cs.dropWhile (!isMark ·) = [] := List.dropWhile_eq_nil_iff.2 hmark
  have hplaces : cs.dropWhile (· != '.') = [] := List.dropWhile_eq_nil_iff.2 hpoint
  simp [value, htake, hdrop, hplaces, exponent, figures]

theorem value_ofNat (n : Nat) : value (Text.ofNat n) = n := by
  rw [value_of_digits Text.isDigit_ofNat, figures_ofNat]

/-- A numeral that is read as a natural number has digits only, and is worth that number. -/
theorem digits_of_readNat64 {num : List Char} (hnum : Lexical.Numeral num) {n : Nat}
    (h : Text.readNat64 num = .ok n) : (∀ c ∈ num, c.isDigit = true) ∧ value num = n := by
  obtain ⟨c, cs, rfl, hc⟩ := hnum.startsNumeral []
  have hne : ∀ d, d.isDigit = false → d ≠ '.' → c ≠ d := by
    rintro d hd hp rfl
    simp [Lexical.startsNumeral, hd, hp] at hc
  have hplus := hne '+' rfl (by decide)
  have hminus := hne '-' rfl (by decide)
  rw [Text.readNat64_of_head hplus hminus] at h
  obtain ⟨hdigits, hv⟩ := Text.readDigits_ok h
  refine ⟨hdigits, ?_⟩
  rw [value_of_digits hdigits, figures, List.filter_eq_self.2 hdigits, hv]

/-! ## Parentheses -/

/-- A parenthesis too many closes nothing. -/
def depthStep (depth : Nat) (t : Token) : Nat :=
  if t.isPunct '(' then depth + 1 else if t.isPunct ')' then depth - 1 else depth

/-- The number of parentheses that are open behind the tokens. -/
def depthAfter (ts : List Token) : Nat :=
  ts.foldl depthStep 0

theorem depthAfter_append (xs ys : List Token) :
    depthAfter (xs ++ ys) = ys.foldl depthStep (depthAfter xs) := by
  simp [depthAfter]

/-! ## Clauses -/

/-- Behind these tokens a keyword is the name of a column. -/
def EndsInLabel (front : List Token) : Prop :=
  ∃ t ∈ front.getLast?, t.isKeyword "as" = true ∨ t.isPunct '.' = true

theorem endsInLabel_concat {front : List Token} {t : Token} :
    EndsInLabel (front ++ [t]) ↔ t.isKeyword "as" = true ∨ t.isPunct '.' = true := by
  rw [EndsInLabel, List.getLast?_concat]
  simp

/-- The keyword and what follows it count this many rows, by one literal with which the count ends. -/
inductive Counts : Token → List Token → ℚ → Prop
  | limit {keyword count : Token} {behind : List Token} :
      keyword.isKeyword "limit" = true → count.isNumber = true →
        (∀ t ∈ behind.head?, t.isAnyKeyword ["offset", "for"] = true) →
        Counts keyword (count :: behind) (value count.text)
  | fetch {keyword first count rows only : Token} {behind : List Token} :
      keyword.isKeyword "fetch" = true → first.isAnyKeyword ["first", "next"] = true →
        count.isNumber = true → rows.isAnyKeyword ["row", "rows"] = true →
        only.isKeyword "only" = true →
        Counts keyword (first :: count :: rows :: only :: behind) (value count.text)
  | fetchRow {keyword first rows only : Token} {behind : List Token} :
      keyword.isKeyword "fetch" = true → first.isAnyKeyword ["first", "next"] = true →
        rows.isAnyKeyword ["row", "rows"] = true → only.isKeyword "only" = true →
        Counts keyword (first :: rows :: only :: behind) 1

/-- Behind the tokens in front, a clause outside of all parentheses counts at most `m` rows. -/
def ClauseAt (m : Nat) (front : List Token) (keyword : Token) (behind : List Token) : Prop :=
  depthAfter front = 0 ∧ ¬EndsInLabel front ∧ ∃ v ≤ (m : ℚ), Counts keyword behind v

/-- One of the tokens behind those in front begins such a clause. -/
def BoundedBehind (m : Nat) (front ts : List Token) : Prop :=
  ∃ before keyword behind, ts = before ++ keyword :: behind ∧
    ClauseAt m (front ++ before) keyword behind

/-- The statement returns at most `m` rows. -/
def RowBounded (m : Nat) (ts : List Token) : Prop :=
  BoundedBehind m [] ts

theorem Counts.isKeyword {keyword : Token} {behind : List Token} {v : ℚ}
    (h : Counts keyword behind v) : keyword.isAnyKeyword ["limit", "fetch"] = true := by
  cases h with
  | limit hk => simp [isAnyKeyword, hk]
  | fetch hk => simp [isAnyKeyword, hk]
  | fetchRow hk => simp [isAnyKeyword, hk]

theorem not_boundedBehind_nil (m : Nat) (front : List Token) : ¬BoundedBehind m front [] := by
  rintro ⟨before, keyword, behind, he, -⟩
  simp at he

theorem boundedBehind_cons {m : Nat} {front : List Token} {t : Token} {ts : List Token} :
    BoundedBehind m front (t :: ts) ↔ ClauseAt m front t ts ∨ BoundedBehind m (front ++ [t]) ts := by
  constructor
  · rintro ⟨before, keyword, behind, he, hc⟩
    cases before with
    | nil =>
      rw [List.nil_append, List.cons.injEq] at he
      obtain ⟨rfl, rfl⟩ := he
      rw [List.append_nil] at hc
      exact .inl hc
    | cons b before =>
      rw [List.cons_append, List.cons.injEq] at he
      obtain ⟨rfl, rfl⟩ := he
      exact .inr ⟨before, keyword, behind, rfl, by simpa using hc⟩
  · rintro (hc | ⟨before, keyword, behind, rfl, hc⟩)
    · exact ⟨[], t, ts, rfl, by simpa using hc⟩
    · exact ⟨t :: before, keyword, behind, rfl, by simpa using hc⟩

/-- Tokens none of which begins a clause are passed over. -/
theorem boundedBehind_append {m : Nat} {front xs ys : List Token}
    (h : ∀ as t bs, xs = as ++ t :: bs → ¬ClauseAt m (front ++ as) t (bs ++ ys)) :
    BoundedBehind m front (xs ++ ys) ↔ BoundedBehind m (front ++ xs) ys := by
  induction xs generalizing front with
  | nil => simp
  | cons x xs ih =>
    have hx := h [] x xs rfl
    rw [List.append_nil] at hx
    rw [List.cons_append, boundedBehind_cons, or_iff_right hx, ih, List.append_assoc]
    · rfl
    · intro as t bs he
      have := h (x :: as) t bs (by rw [he, List.cons_append])
      simpa using this

/-- Of the tokens in front, only the open parentheses and the last token matter. -/
theorem boundedBehind_congr {m : Nat} {front other : List Token} (ts : List Token)
    (hdepth : depthAfter front = depthAfter other) (hlabel : EndsInLabel front ↔ EndsInLabel other) :
    BoundedBehind m front ts ↔ BoundedBehind m other ts := by
  have hfront : ∀ before keyword behind,
      ClauseAt m (front ++ before) keyword behind ↔ ClauseAt m (other ++ before) keyword behind := by
    intro before keyword behind
    have hl : EndsInLabel (front ++ before) ↔ EndsInLabel (other ++ before) := by
      rcases List.eq_nil_or_concat before with rfl | ⟨before, t, rfl⟩
      · simpa using hlabel
      · rw [List.concat_eq_append, ← List.append_assoc, ← List.append_assoc, endsInLabel_concat,
          endsInLabel_concat]
    rw [ClauseAt, ClauseAt, depthAfter_append, depthAfter_append, hdepth, hl]
  simp only [BoundedBehind, hfront]

end SpatialQuery.RowLimit
