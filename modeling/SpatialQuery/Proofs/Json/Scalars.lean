import Mathlib.Data.List.TakeWhile
import SpatialQuery.Json.Printing
import SpatialQuery.Json.Reading

/-!
Strings and numbers of JSON text are read as they were written, whatever follows them
(`readString_escaped`, `Numeral.read_ofInt`). Of a number is asked that what follows does not go on with it
(`Numeral.read_append`).
-/

namespace SpatialQuery.Json

/-! ## Strings -/

theorem hexValue?_hexDigit : ∀ n < 16, hexValue? (hexDigit n) = some n := by
  decide

/-- The part stands for this character. -/
def Part.Is (p : Part) (c : Char) : Prop :=
  ∀ ps, joinParts? (p :: ps) = (joinParts? ps).map (c :: ·)

theorem char_is (c : Char) : (Part.char c).Is c := fun _ => rfl

theorem unit_is {n : Nat} (hn : n < 0xD800) : (Part.unit n).Is (Char.ofNat n) := by
  have hhigh : isHighSurrogate n = false := by
    rw [isHighSurrogate, decide_eq_false (by omega), Bool.false_and]
  have hlow : isLowSurrogate n = false := by
    rw [isLowSurrogate, decide_eq_false (by omega), Bool.false_and]
  intro ps
  cases ps with
  | nil => simp [joinParts?, hhigh, hlow]
  | cons p ps => cases p <;> simp [joinParts?, hhigh, hlow]

theorem readParts_unit {n : Nat} (hn : n < 0x20) (cs : List Char) :
    readParts (['\\', 'u', '0', '0', hexDigit (n / 16), hexDigit (n % 16)] ++ cs) =
      (readParts cs).map fun (parts, rest) => (.unit n :: parts, rest) := by
  have hhigh := hexValue?_hexDigit (n / 16) (by omega)
  have hlow := hexValue?_hexDigit (n % 16) (by omega)
  have hzero : hexValue? '0' = some 0 := rfl
  have hvalue : 0 * 4096 + 0 * 256 + n / 16 * 16 + n % 16 = n := by omega
  simp only [List.cons_append, List.nil_append, readParts, hhigh, hlow, hzero, Option.bind_eq_bind,
    Option.bind_some, hvalue]
  cases readParts cs <;> rfl

theorem readParts_escaped {e c : Char} (he : unescape? e = some c) (hu : e ≠ 'u') (cs : List Char) :
    readParts ('\\' :: e :: cs) = (readParts cs).map fun (parts, rest) => (.char c :: parts, rest) := by
  rw [readParts, he, Option.bind_eq_bind, Option.bind_some]
  · cases readParts cs <;> rfl
  · exact fun _ _ _ _ _ h => absurd h hu

theorem readParts_char {c : Char} (hq : c ≠ '"') (hb : c ≠ '\\') (hc : ¬c.toNat < 0x20) (cs : List Char) :
    readParts (c :: cs) = (readParts cs).map fun (parts, rest) => (.char c :: parts, rest) := by
  rw [readParts, if_neg]
  · simp [hc, hb]
  · exact hq
  · exact fun _ _ _ _ _ h => absurd h hb
  · exact fun _ _ h => absurd h hb

theorem readParts_escape (c : Char) : ∃ p : Part, p.Is c ∧ ∀ cs,
    readParts (escape c ++ cs) = (readParts cs).map fun (parts, rest) => (p :: parts, rest) := by
  unfold escape
  split
  case h_8 hq hb _ _ _ _ _ =>
    split
    · rename_i hc
      have his := unit_is (n := c.toNat) (by omega)
      rw [Char.ofNat_toNat] at his
      exact ⟨_, his, readParts_unit hc⟩
    · rename_i hc
      exact ⟨_, char_is c, readParts_char hq hb hc⟩
  all_goals exact ⟨_, char_is _, readParts_escaped rfl (by decide)⟩

theorem readParts_flatMap (s rest : List Char) :
    ∃ ps, readParts (s.flatMap escape ++ '"' :: rest) = some (ps, rest) ∧ joinParts? ps = some s := by
  induction s with
  | nil => exact ⟨[], rfl, rfl⟩
  | cons c s ih =>
    obtain ⟨p, hp, hread⟩ := readParts_escape c
    obtain ⟨ps, hps, hjoin⟩ := ih
    refine ⟨p :: ps, ?_, ?_⟩
    · rw [List.flatMap_cons, List.append_assoc, hread, hps]
      rfl
    · rw [hp, hjoin]
      rfl

/-- A string is read behind its opening quote. -/
theorem readString_escaped (s : String) (rest : List Char) :
    readString (s.toList.flatMap escape ++ '"' :: rest) = some (some s, rest) := by
  obtain ⟨ps, hps, hjoin⟩ := readParts_flatMap s.toList rest
  rw [readString, hps, Option.map_some]
  dsimp only
  rw [hjoin, Option.map_some, String.ofList_toList]

/-! ## Numbers -/

/-- The text does not go on with a number in front of it. -/
def Ends (cs : List Char) : Prop :=
  ∀ c ∈ cs.head?, c.isDigit = false ∧ c ≠ '.' ∧ c ≠ 'e' ∧ c ≠ 'E'

theorem ends_nil : Ends [] :=
  nofun

theorem span_append {p : Char → Bool} {cs rest : List Char}
    (h : cs.dropWhile p = [] → ∀ c ∈ rest.head?, p c = false) :
    (cs ++ rest).takeWhile p = cs.takeWhile p ∧ (cs ++ rest).dropWhile p = cs.dropWhile p ++ rest := by
  induction cs with
  | nil =>
    cases rest with
    | nil => exact ⟨rfl, rfl⟩
    | cons c rest =>
      have hc : p c = false := h rfl c rfl
      simp [hc]
  | cons c cs ih =>
    cases hc : p c with
    | true =>
      rw [List.dropWhile_cons_of_pos hc] at h
      simp [hc, ih h]
    | false => simp [hc]

theorem digits_append {cs rest t : List Char} {n count : Nat} (h : Decimal.digits cs = (n, count, rest))
    (ht : rest = [] → Ends t) : Decimal.digits (cs ++ t) = (n, count, rest ++ t) := by
  cases h
  have hspan := @span_append Char.isDigit cs t fun hr c hc => (ht hr c hc).1
  rw [Decimal.digits, hspan.1, hspan.2]

namespace Numeral

theorem readFraction_other {cs : List Char} (h : ∀ c ∈ cs.head?, c ≠ '.') : readFraction cs = some (none, cs) := by
  rw [readFraction]
  rintro ds rfl
  exact h '.' rfl rfl

theorem readFraction_append {cs rest t : List Char} {f : Option (List Char)}
    (h : readFraction cs = some (f, rest)) (ht : rest = [] → Ends t) :
    readFraction (cs ++ t) = some (f, rest ++ t) := by
  cases cs with
  | nil =>
    cases h
    exact readFraction_other fun c hc => (ht rfl c hc).2.1
  | cons c cs =>
    by_cases hc : c = '.'
    · subst hc
      rw [readFraction] at h
      split at h
      · cases h
      · rename_i hne
        cases h
        have hspan := @span_append Char.isDigit cs t fun hr c hc => (ht hr c hc).1
        rw [List.cons_append, readFraction, hspan.1, hspan.2, if_neg hne]
    · have hother : ∀ ds : List Char, ∀ d ∈ (c :: ds).head?, d ≠ '.' := by
        rintro ds _ ⟨⟩
        exact hc
      rw [readFraction_other (hother cs)] at h
      cases h
      exact readFraction_other (hother (cs ++ t))

/-- The sign of an exponent, and what stands behind it. -/
def splitSign : List Char → Bool × List Char
  | '-' :: cs => (true, cs)
  | '+' :: cs => (false, cs)
  | cs => (false, cs)

theorem splitSign_other {cs : List Char} (hm : ∀ c ∈ cs.head?, c ≠ '-') (hp : ∀ c ∈ cs.head?, c ≠ '+') :
    splitSign cs = (false, cs) := by
  rw [splitSign]
  · rintro ds rfl
    exact hm '-' rfl rfl
  · rintro ds rfl
    exact hp '+' rfl rfl

theorem splitSign_append {cs : List Char} (h : cs ≠ []) (t : List Char) :
    splitSign (cs ++ t) = ((splitSign cs).1, (splitSign cs).2 ++ t) := by
  cases cs with
  | nil => exact absurd rfl h
  | cons c cs =>
    by_cases hm : c = '-'
    · subst hm
      rfl
    by_cases hp : c = '+'
    · subst hp
      rfl
    have hother : ∀ ds, splitSign (c :: ds) = (false, c :: ds) := by
      intro ds
      refine splitSign_other ?_ ?_
      · rintro _ ⟨⟩
        exact hm
      · rintro _ ⟨⟩
        exact hp
    rw [List.cons_append, hother, hother]
    rfl

theorem readExponent_mark {c : Char} (hc : (c == 'e' || c == 'E') = true) (cs : List Char) :
    readExponent (c :: cs) = match Decimal.digits (splitSign cs).2 with
      | (_, 0, _) => none
      | (n, _, rest) => some (some (if (splitSign cs).1 then -(n : Int) else n), rest) := by
  unfold readExponent splitSign
  exact if_pos hc

theorem readExponent_other {cs : List Char} (h : ∀ c ∈ cs.head?, c ≠ 'e' ∧ c ≠ 'E') :
    readExponent cs = some (none, cs) := by
  cases cs with
  | nil => rfl
  | cons c cs =>
    have hc : (c == 'e' || c == 'E') = false := by simpa using h c rfl
    unfold readExponent
    dsimp only
    rw [hc, if_neg Bool.false_ne_true]

theorem readExponent_append {cs rest t : List Char} {e : Option Int} (h : readExponent cs = some (e, rest))
    (ht : rest = [] → Ends t) : readExponent (cs ++ t) = some (e, rest ++ t) := by
  cases cs with
  | nil =>
    cases h
    exact readExponent_other fun c hc => (ht rfl c hc).2.2
  | cons c cs =>
    cases hc : c == 'e' || c == 'E' with
    | true =>
      rw [readExponent_mark hc] at h
      have hne : cs ≠ [] := by
        rintro rfl
        cases h
      cases hdigits : Decimal.digits (splitSign cs).2 with
      | mk n more =>
        obtain ⟨count, rest'⟩ := more
        rw [hdigits] at h
        -- a mark without digits behind it is refused
        cases count with
        | zero => cases h
        | succ count =>
          cases h
          rw [List.cons_append, readExponent_mark hc, splitSign_append hne, digits_append hdigits ht]
          rfl
    | false =>
      have hother : ∀ ds : List Char, ∀ d ∈ (c :: ds).head?, d ≠ 'e' ∧ d ≠ 'E' := by
        rintro ds _ ⟨⟩
        simpa using hc
      rw [readExponent_other (hother cs)] at h
      cases h
      exact readExponent_other (hother (cs ++ t))

/-- The minus sign of a number, and what stands behind it. -/
def splitMinus : List Char → Bool × List Char
  | '-' :: cs => (true, cs)
  | cs => (false, cs)

theorem splitMinus_other {c : Char} (h : c ≠ '-') (cs : List Char) : splitMinus (c :: cs) = (false, c :: cs) := by
  rw [splitMinus]
  exact fun _ hm => h (List.cons.inj hm).1

theorem splitMinus_append {cs : List Char} (h : cs ≠ []) (t : List Char) :
    splitMinus (cs ++ t) = ((splitMinus cs).1, (splitMinus cs).2 ++ t) := by
  cases cs with
  | nil => exact absurd rfl h
  | cons c cs =>
    by_cases hm : c = '-'
    · subst hm
      rfl
    · rw [List.cons_append, splitMinus_other hm, splitMinus_other hm]
      rfl

/-- A number has a digit in front of its point, and no more of them behind a zero. -/
def isMalformed (whole : List Char) : Bool :=
  whole.isEmpty || whole.length != 1 && whole.head? == some '0'

theorem read_eq (cs : List Char) : read cs =
    if isMalformed ((splitMinus cs).2.takeWhile Char.isDigit) then none
    else (readFraction ((splitMinus cs).2.dropWhile Char.isDigit)).bind fun r =>
      (readExponent r.2).bind fun r' =>
        some (⟨(splitMinus cs).1, (splitMinus cs).2.takeWhile Char.isDigit, r.1, r'.1⟩, r'.2) := rfl

theorem read_append {cs rest t : List Char} {n : Numeral} (h : read cs = some (n, rest))
    (ht : rest = [] → Ends t) : read (cs ++ t) = some (n, rest ++ t) := by
  have hne : cs ≠ [] := by
    rintro rfl
    cases h
  rw [read_eq] at h ⊢
  obtain ⟨hwhole, h⟩ := Option.ite_none_left_eq_some.1 h
  obtain ⟨⟨f, behind⟩, hf, h⟩ := Option.bind_eq_some_iff.1 h
  obtain ⟨⟨e, rest'⟩, he, h⟩ := Option.bind_eq_some_iff.1 h
  cases h
  -- where one part ends the text, the parts behind it are missing, and what follows goes on with none of them
  have hbehind : behind = [] → Ends t := by
    rintro rfl
    cases he
    exact ht rfl
  have hdigits : (splitMinus cs).2.dropWhile Char.isDigit = [] → Ends t := by
    intro hnil
    rw [hnil] at hf
    cases hf
    exact hbehind rfl
  have hspan := @span_append Char.isDigit (splitMinus cs).2 t fun hnil c hc => (hdigits hnil c hc).1
  rw [splitMinus_append hne, hspan.1, hspan.2, if_neg hwhole, readFraction_append hf hbehind, Option.bind_some,
    readExponent_append he ht]
  rfl

theorem head_of_read {cs rest : List Char} {n : Numeral} (h : read cs = some (n, rest)) :
    ∃ c ds, cs = c :: ds ∧ (c = '-' ∨ c.isDigit = true) := by
  cases cs with
  | nil => cases h
  | cons c ds =>
    refine ⟨c, ds, rfl, ?_⟩
    by_cases hm : c = '-'
    · exact .inl hm
    · rw [read_eq, splitMinus_other hm] at h
      obtain ⟨hwhole, -⟩ := Option.ite_none_left_eq_some.1 h
      cases hc : c.isDigit with
      | true => exact .inr rfl
      | false => simp [isMalformed, hc] at hwhole

theorem isMalformed_ofNat (n : Nat) : isMalformed (Text.ofNat n) = false := by
  have hne : (Text.ofNat n).isEmpty = false := List.isEmpty_eq_false_iff.2 Nat.toDigits_ne_nil
  rw [isMalformed, hne, Bool.false_or]
  by_cases h : 0 < n
  · rw [beq_eq_false_iff_ne.2 (Text.head?_ofNat h), Bool.and_false]
  · obtain rfl : n = 0 := by omega
    rfl

theorem appendDigits_of_le {ds : List Char} {n count : Nat}
    (h : ds.foldl (fun n c => 10 * n + Text.digitValue c) n ≤ Text.maxNat64) :
    appendDigits n count ds = (ds.foldl (fun n c => 10 * n + Text.digitValue c) n, count + ds.length) := by
  induction ds generalizing n count with
  | nil => rfl
  | cons d ds ih =>
    have hle : 10 * n + Text.digitValue d ≤ Text.maxNat64 := Nat.le_trans (Text.le_foldl_digits _ ds) h
    rw [appendDigits, if_neg (by omega), ih h, List.length_cons]
    congr 1
    omega

theorem read_ofInt (i : Int) :
    read (Text.ofInt i) = some (⟨decide (i < 0), Text.ofNat i.natAbs, none, none⟩, []) := by
  have hdigits : ∀ c ∈ Text.ofNat i.natAbs, c.isDigit = true := Text.isDigit_ofNat
  have hsplit : splitMinus (Text.ofInt i) = (decide (i < 0), Text.ofNat i.natAbs) := by
    rw [Text.ofInt]
    split
    · rename_i h
      rw [decide_eq_true h]
      rfl
    · rename_i h
      rw [decide_eq_false h]
      cases hds : Text.ofNat i.natAbs with
      | nil => rfl
      | cons d ds =>
        refine splitMinus_other ?_ ds
        rintro rfl
        exact absurd (hdigits '-' (by simp [hds])) (by decide)
  rw [read_eq, hsplit]
  dsimp only
  rw [List.takeWhile_eq_self_iff.2 hdigits, List.dropWhile_eq_nil_iff.2 hdigits, isMalformed_ofNat]
  rfl

/-- A whole number of 64 bits, with or without a sign. -/
theorem toJson_ofInt {i : Int} (hlow : -0x8000000000000000 ≤ i) (hhigh : i ≤ Text.maxNat64) :
    toJson ⟨decide (i < 0), Text.ofNat i.natAbs, none, none⟩ = .int i := by
  have hmax : Text.maxNat64 = 0xFFFFFFFFFFFFFFFF := rfl
  have happend : appendDigits 0 0 (Text.ofNat i.natAbs) = (i.natAbs, (Text.ofNat i.natAbs).length) := by
    have h := @appendDigits_of_le (Text.ofNat i.natAbs) 0 0 (by rw [Text.foldl_ofNat]; omega)
    rwa [Text.foldl_ofNat, Nat.zero_add] at h
  have hwhole : whole? ⟨decide (i < 0), Text.ofNat i.natAbs, none, none⟩ = some i := by
    rw [whole?, happend]
    by_cases h : i < 0
    · have hrange : 0 < i.natAbs ∧ i.natAbs ≤ 0x8000000000000000 := by omega
      have hneg : -(i.natAbs : Int) = i := by omega
      have hfits : (decide (0 < i.natAbs) && decide (i.natAbs ≤ 0x8000000000000000)) = true := by
        rw [decide_eq_true hrange.1, decide_eq_true hrange.2, Bool.and_self]
      rw [decide_eq_true h]
      simp only [Option.isSome_none, Bool.or_self, bne_self_eq_false, Bool.not_true, Bool.false_eq_true, ↓reduceIte,
        hfits, hneg]
    · have hnat : (i.natAbs : Int) = i := by omega
      rw [decide_eq_false h]
      simp only [Option.isSome_none, Bool.or_self, bne_self_eq_false, Bool.not_false, Bool.false_eq_true, ↓reduceIte,
        hnat]
  rw [toJson, hwhole]

end Numeral

end SpatialQuery.Json
