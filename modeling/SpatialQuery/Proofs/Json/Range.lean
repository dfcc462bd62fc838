import SpatialQuery.Json.Printing
import SpatialQuery.Proofs.Decimal.Rounding
import SpatialQuery.Proofs.Decimal.Shortest
import SpatialQuery.Proofs.Json.Scalars

/-!
Every finite double is written as a number that is read as a double again, if not as the same one
(`read_text`). The shortest decimal may be greater than the double, and reading rounds it up to five times; of all
doubles only the ten greatest are so near to infinity that they have to be tried.
-/

namespace SpatialQuery.Json

open Decimal
open Float.Model.UnpackedFloat (unpack unpackExponent)

/-! ## Scaling -/

/-- A power of ten behind the point is divided out without end. -/
theorem scale_neg {e : Int} (he : e < 0) (x : Float) : (scale x e).isSome = true := by
  -- every division by 10 ^ 308 brings the exponent nearer to zero
  induction hn : e.natAbs using Nat.strongRecOn generalizing e x with
  | ind n ih =>
    subst hn
    rw [scale, if_neg (by omega), if_neg (by omega)]
    split
    · rfl
    · split
      · rfl
      · by_cases hlast : e + 308 < 0
        · exact ih _ (by omega) hlast _ rfl
        · omega

/-- A number is in range if the exact product is, less the five times that rounding may add to it. -/
theorem scale_ofNat {n : Nat} {e : Int} (hpos : 0 < n) (hn : n < 2 ^ 64)
    (hmax : (n : ℚ) * 10 ^ e * (1 + epsilon) ^ 5 < 2 ^ 1024) : (scale (Float.ofNat n) e).isSome = true := by
  by_cases he : e < 0
  · exact scale_neg he _
  obtain ⟨k, rfl⟩ : ∃ k : Nat, e = k := ⟨e.toNat, by omega⟩
  rw [zpow_natCast] at hmax
  have hone : (1 : ℚ) ≤ n := by exact_mod_cast hpos
  have hk : k ≤ 308 := by
    by_contra hk
    have hlarge : (2 : ℚ) ^ 1024 ≤ 10 ^ 309 := by exact_mod_cast (by decide +kernel : 2 ^ 1024 ≤ 10 ^ 309)
    have hle : (10 : ℚ) ^ 309 ≤ n * 10 ^ k * (1 + epsilon) ^ 5 :=
      calc (10 : ℚ) ^ 309 ≤ 10 ^ k := pow_le_pow_right₀ (by norm_num) (by omega)
        _ ≤ n * 10 ^ k := le_mul_of_one_le_left (by positivity) hone
        _ ≤ n * 10 ^ k * (1 + epsilon) ^ 5 := le_mul_of_one_le_right (by positivity) (one_le_pow₀ one_le_factor)
    exact absurd (hlarge.trans hle) (not_le.2 hmax)
  -- three times in the conversion of `n`, once in the power and once in the product
  have hproduct : (n : ℚ) * (1 + epsilon) ^ 3 * (10 ^ k * (1 + epsilon)) * (1 + epsilon) =
      n * 10 ^ k * (1 + epsilon) ^ 5 := by ring
  have hinf := ((upTo_ofNat hpos hn).mul (upTo_power hk) (hproduct ▸ hmax)).not_isInf
  rw [scale, if_neg (by omega), if_pos (by omega), Int.toNat_natCast]
  dsimp only
  rw [hinf]
  rfl

/-! ## Digits in front of a power of ten -/

theorem foldl_digits_lt {ds : List Char} (h : ∀ c ∈ ds, c.isDigit = true) (n : Nat) :
    ds.foldl (fun n c => 10 * n + Text.digitValue c) n < (n + 1) * 10 ^ ds.length := by
  induction ds generalizing n with
  | nil => exact Nat.lt_of_lt_of_eq (Nat.lt_succ_self n) (Nat.mul_one _).symm
  | cons d ds ih =>
    have hd := Text.digitValue_le (h d (by simp))
    refine Nat.lt_of_lt_of_le (ih (fun c hc => h c (by simp [hc])) _) ?_
    rw [List.length_cons, Nat.pow_succ, Nat.mul_comm _ 10, ← Nat.mul_assoc]
    refine Nat.mul_le_mul_right _ ?_
    change 10 * n + Text.digitValue d + 1 ≤ (n + 1) * 10
    omega

/-- The digits that do not fit stand for nothing. -/
theorem appendDigits_le {ds : List Char} {n count v c : Nat} (h : appendDigits n count ds = (v, c))
    (hn : n ≤ Text.maxNat64) : n ≤ v ∧ v ≤ Text.maxNat64 ∧ ∃ k ≤ ds.length, c = count + k ∧
      v * 10 ^ (ds.length - k) ≤ ds.foldl (fun n c => 10 * n + Text.digitValue c) n := by
  -- A digit left out multiplies the number by ten and adds to it.
  have hskip : ∀ (ds : List Char) n, n * 10 ^ ds.length ≤ ds.foldl (fun n c => 10 * n + Text.digitValue c) n := by
    intro ds
    induction ds with
    | nil => exact fun n => (Nat.mul_one n).le
    | cons d ds ih =>
      intro n
      refine Nat.le_trans ?_ (ih (10 * n + Text.digitValue d))
      rw [List.length_cons, Nat.pow_succ, Nat.mul_comm _ 10, ← Nat.mul_assoc, Nat.mul_comm n 10]
      exact Nat.mul_le_mul_right _ (Nat.le_add_right ..)
  induction ds generalizing n count with
  | nil =>
    cases h
    exact ⟨Nat.le_refl _, hn, 0, Nat.le_refl 0, rfl, (Nat.mul_one _).le⟩
  | cons d ds ih =>
    rw [appendDigits] at h
    split at h
    · cases h
      exact ⟨Nat.le_refl _, hn, 0, Nat.zero_le _, rfl, hskip _ _⟩
    · rename_i hfits
      obtain ⟨hle, hmax, k, hk, hc, hvalue⟩ := ih h (Nat.le_of_not_lt hfits)
      refine ⟨by omega, hmax, k + 1, Nat.succ_le_succ hk, by omega, ?_⟩
      rw [List.length_cons, Nat.add_sub_add_right]
      exact hvalue

namespace Numeral

/-- The number has a fraction or an exponent, and is in range. -/
def IsFloat (n : Numeral) : Prop :=
  (n.fraction.isSome || n.exponent.isSome) = true ∧ n.float?.isSome = true

theorem IsFloat.toJson {n : Numeral} (h : n.IsFloat) : ∃ x, n.toJson = .float x := by
  obtain ⟨hparts, hsome⟩ := h
  obtain ⟨x, hx⟩ := Option.isSome_iff_exists.1 hsome
  refine ⟨x, ?_⟩
  rw [Numeral.toJson, whole?, if_pos hparts, hx]
  rfl

theorem IsFloat.sign {n : Numeral} (h : n.IsFloat) (negative : Bool) : IsFloat { n with negative } := by
  refine ⟨h.1, ?_⟩
  have hsome := h.2
  rw [float?, Option.isSome_map] at hsome ⊢
  exact hsome

/-- Up to 16 digits in front of the point and some behind it. -/
theorem isFloat_fraction {whole fraction : List Char} (hwhole : ∀ c ∈ whole, c.isDigit = true)
    (hlength : whole.length ≤ 16) (hfraction : ∀ c ∈ fraction, c.isDigit = true) (hne : fraction ≠ []) :
    IsFloat ⟨false, whole, some fraction, none⟩ := by
  refine ⟨rfl, ?_⟩
  have hmax : Text.maxNat64 = 0xFFFFFFFFFFFFFFFF := rfl
  have hlt : whole.foldl (fun n c => 10 * n + Text.digitValue c) 0 < 10 ^ 16 :=
    calc whole.foldl (fun n c => 10 * n + Text.digitValue c) 0 < 1 * 10 ^ whole.length := foldl_digits_lt hwhole 0
      _ ≤ 10 ^ 16 := (Nat.one_mul _).trans_le (Nat.pow_le_pow_right (by decide) hlength)
  have happend := @appendDigits_of_le whole 0 0 (by omega)
  rw [float?, happend, Option.isSome_map, Option.getD_some, Option.getD_none]
  dsimp only
  generalize whole.foldl (fun n c => 10 * n + Text.digitValue c) 0 = value at *
  obtain ⟨d, ds, rfl⟩ := List.exists_cons_of_ne_nil hne
  have hd := Text.digitValue_le (hfraction d (by simp))
  rw [appendDigits, if_neg (by omega)]
  cases hmore : appendDigits (10 * value + Text.digitValue d) (0 + 1) ds with
  | mk v c =>
    obtain ⟨-, -, k, -, hc, -⟩ := appendDigits_le hmore (by omega)
    exact scale_neg (by omega) _

/-- One digit in front of the point, with an exponent that keeps the number in range. -/
theorem isFloat_exponent {d : Char} {ds : List Char} {fraction : Option (List Char)} {e : Int}
    (hfraction : fraction.getD [] = ds) (hd : d.isDigit = true) (hd0 : d ≠ '0')
    (hmax : (((d :: ds).foldl (fun n c => 10 * n + Text.digitValue c) 0 : Nat) : ℚ) * 10 ^ (e - ds.length) *
      (1 + epsilon) ^ 5 < 2 ^ 1024) :
    IsFloat ⟨false, [d], fraction, some e⟩ := by
  refine ⟨by simp, ?_⟩
  have hlimit : Text.maxNat64 = 0xFFFFFFFFFFFFFFFF := rfl
  have hle := Text.digitValue_le hd
  have hpos : 0 < Text.digitValue d := by
    have hlow := (Char.isDigit_iff_toNat.1 hd).1
    exact Nat.sub_pos_of_lt (Nat.lt_of_le_of_ne hlow fun heq => hd0 (Char.toNat_inj.1 heq.symm))
  have happend : appendDigits 0 0 [d] = (Text.digitValue d, 1) := by
    rw [appendDigits, if_neg (by omega), appendDigits, Nat.mul_zero, Nat.zero_add]
  rw [float?, happend, Option.isSome_map, Option.getD_some, hfraction]
  dsimp only
  -- The digits behind the point that do not fit are cut off, which makes the number no larger.
  cases hmore : appendDigits (Text.digitValue d) 0 ds with
  | mk v c =>
    obtain ⟨hv, hvmax, k, hk, hc, hvalue⟩ := appendDigits_le hmore (by omega)
    refine scale_ofNat (by omega) (by omega) (lt_of_le_of_lt ?_ hmax)
    have hcast : (v : ℚ) * 10 ^ (ds.length - k) ≤
        ((d :: ds).foldl (fun n c => 10 * n + Text.digitValue c) 0 : Nat) := by
      rw [List.foldl_cons, Nat.mul_zero, Nat.zero_add]
      exact_mod_cast hvalue
    have hexponent : (([d].length : Int) - (1 : Nat)) - c + e = (ds.length - k : Nat) + (e - ds.length) := by
      rw [List.length_singleton]
      omega
    rw [hexponent, zpow_add₀ (by norm_num), zpow_natCast, ← mul_assoc]
    refine mul_le_mul_of_nonneg_right (mul_le_mul_of_nonneg_right hcast (by positivity)) ?_
    exact pow_nonneg (zero_le_one.trans one_le_factor) 5

/-! ## Texts of numbers -/

/-- Digits in front of a fraction and an exponent. -/
theorem read_parts {whole rest rest' : List Char} {fraction : Option (List Char)} {e : Option Int}
    (hwhole : ∀ c ∈ whole, c.isDigit = true) (hform : isMalformed whole = false)
    (hrest : ∀ c ∈ rest.head?, c.isDigit = false) (hf : readFraction rest = some (fraction, rest'))
    (he : readExponent rest' = some (e, [])) :
    read (whole ++ rest) = some (⟨false, whole, fraction, e⟩, []) := by
  have hsplit : splitMinus (whole ++ rest) = (false, whole ++ rest) := by
    cases whole with
    | nil => cases hform
    | cons c cs =>
      refine splitMinus_other ?_ _
      rintro rfl
      exact absurd (hwhole '-' (by simp)) (by decide)
  have hspan := @span_append Char.isDigit whole rest fun _ => hrest
  rw [List.takeWhile_eq_self_iff.2 hwhole, List.dropWhile_eq_nil_iff.2 hwhole, List.nil_append] at hspan
  rw [read_eq, hsplit]
  dsimp only
  rw [hspan.1, hspan.2, hform, hf]
  dsimp only [Option.bind_some]
  rw [he]
  rfl

theorem isMalformed_of_head {whole : List Char} (hne : whole ≠ []) (h : whole.head? ≠ some '0') :
    isMalformed whole = false := by
  rw [isMalformed, List.isEmpty_eq_false_iff.2 hne, beq_eq_false_iff_ne.2 h, Bool.and_false, Bool.or_self]

/-- The text is read as a double without a sign. -/
def ReadsFloat (cs : List Char) : Prop :=
  ∃ n : Numeral, n.IsFloat ∧ n.negative = false ∧ read cs = some (n, [])

theorem negative_of_read {cs rest : List Char} {n : Numeral} (h : read ('-' :: cs) = some (n, rest)) :
    n.negative = true := by
  rw [read_eq] at h
  obtain ⟨-, h⟩ := Option.ite_none_left_eq_some.1 h
  obtain ⟨⟨f, behind⟩, -, h⟩ := Option.bind_eq_some_iff.1 h
  obtain ⟨⟨e, rest'⟩, -, h⟩ := Option.bind_eq_some_iff.1 h
  cases h
  rfl

theorem read_minus {c : Char} (hc : c ≠ '-') (cs : List Char) :
    read ('-' :: c :: cs) = (read (c :: cs)).map fun r => ({ r.1 with negative := true }, r.2) := by
  have hsplit : splitMinus ('-' :: c :: cs) = (true, c :: cs) := rfl
  rw [read_eq, read_eq, splitMinus_other hc, hsplit]
  dsimp only
  split
  · rfl
  · cases readFraction ((c :: cs).dropWhile Char.isDigit) with
    | none => rfl
    | some r => cases hexponent : readExponent r.2 <;> simp [hexponent]

theorem ReadsFloat.minus {cs : List Char} (h : ReadsFloat cs) :
    ∃ n : Numeral, n.IsFloat ∧ read ('-' :: cs) = some (n, []) := by
  obtain ⟨n, hn, hsign, hread⟩ := h
  obtain ⟨c, ds, rfl, -⟩ := head_of_read hread
  have hc : c ≠ '-' := by
    rintro rfl
    rw [negative_of_read hread] at hsign
    cases hsign
  refine ⟨{ n with negative := true }, hn.sign true, ?_⟩
  rw [read_minus hc, hread]
  rfl

theorem readsFloat_fraction {whole fraction : List Char} (hwhole : ∀ c ∈ whole, c.isDigit = true)
    (hform : isMalformed whole = false) (hlength : whole.length ≤ 16) (hfraction : ∀ c ∈ fraction, c.isDigit = true)
    (hne : fraction ≠ []) : ReadsFloat (whole ++ '.' :: fraction) := by
  have hpoint : readFraction ('.' :: fraction) = some (some fraction, []) := by
    rw [readFraction, List.takeWhile_eq_self_iff.2 hfraction, List.dropWhile_eq_nil_iff.2 hfraction,
      List.isEmpty_eq_false_iff.2 hne, if_neg Bool.false_ne_true]
  have hrest : ∀ c ∈ ('.' :: fraction).head?, c.isDigit = false := by
    rintro _ ⟨⟩
    rfl
  exact ⟨_, isFloat_fraction hwhole hlength hfraction hne, rfl, read_parts hwhole hform hrest hpoint rfl⟩

/-- The zeros of a whole number are written out, and a zero behind the point. -/
theorem readsFloat_positional {s : Scaled} (hpos : 0 < s.digits) (h : s.exponent + (Text.ofNat s.digits).length ≤ 16) :
    ReadsFloat (s.positional ++ if 0 ≤ s.exponent then ['.', '0'] else []) := by
  -- the point stands behind the digits and zeros, among the digits, or in front of zeros and digits
  have hdigits : ∀ c ∈ Text.ofNat s.digits, c.isDigit = true := Text.isDigit_ofNat
  have hne : Text.ofNat s.digits ≠ [] := Nat.toDigits_ne_nil
  have hhead := Text.head?_ofNat hpos
  have hlength := Nat.length_toDigits_pos (b := 10) (n := s.digits)
  have hzeros : ∀ (k : Nat), ∀ c ∈ List.replicate k '0', c.isDigit = true := by
    intro k c hc
    rw [List.eq_of_mem_replicate hc]
    rfl
  change 0 < (Text.ofNat s.digits).length at hlength
  unfold Scaled.positional
  dsimp only
  generalize Text.ofNat s.digits = ds at *
  split
  · rename_i he
    refine readsFloat_fraction ?_ (isMalformed_of_head (by simp [hne]) ?_) ?_
      (List.forall_mem_singleton.2 rfl) (List.cons_ne_nil _ _)
    · exact List.forall_mem_append.2 ⟨hdigits, hzeros _⟩
    · rwa [List.head?_append_of_ne_nil _ hne]
    · rw [List.length_append, List.length_replicate]
      omega
  · rename_i he
    rw [List.append_nil]
    split
    · rename_i hbehind
      refine readsFloat_fraction (fun c hc => hdigits c (List.mem_of_mem_take hc)) (isMalformed_of_head ?_ ?_) ?_
        (fun c hc => hdigits c (List.mem_of_mem_drop hc)) ?_
      · rw [ne_eq, List.take_eq_nil_iff, not_or]
        exact ⟨by omega, hne⟩
      · rwa [List.head?_take, if_neg (by omega)]
      · rw [List.length_take]
        omega
      · rw [ne_eq, List.drop_eq_nil_iff]
        omega
    · refine @readsFloat_fraction ['0'] _ (List.forall_mem_singleton.2 rfl) rfl (by decide) ?_ (by simp [hne])
      exact List.forall_mem_append.2 ⟨hzeros _, hdigits⟩

theorem readExponent_ofInt (i : Int) : readExponent ('e' :: Text.ofInt i) = some (some i, []) := by
  have hdigits : Decimal.digits (Text.ofNat i.natAbs) = (i.natAbs, (Text.ofNat i.natAbs).length, []) := by
    rw [Decimal.digits, List.takeWhile_eq_self_iff.2 Text.isDigit_ofNat,
      List.dropWhile_eq_nil_iff.2 Text.isDigit_ofNat, Text.foldl_ofNat]
  have hsplit : splitSign (Text.ofInt i) = (decide (i < 0), Text.ofNat i.natAbs) := by
    have hsign : ∀ sign, sign.isDigit = false → ∀ c ∈ (Text.ofNat i.natAbs).head?, c ≠ sign := by
      rintro _ hsign c hc rfl
      exact absurd (Text.isDigit_ofNat c (List.mem_of_mem_head? hc)) (by rw [hsign]; decide)
    rw [Text.ofInt]
    split
    · rename_i h
      rw [decide_eq_true h]
      rfl
    · rename_i h
      rw [decide_eq_false h, splitSign_other (hsign '-' rfl) (hsign '+' rfl)]
  have hlength := Nat.length_toDigits_pos (b := 10) (n := i.natAbs)
  obtain ⟨k, hk⟩ : ∃ k, (Text.ofNat i.natAbs).length = k + 1 := ⟨_, (Nat.sub_add_cancel hlength).symm⟩
  have hvalue : (if i < 0 then -(i.natAbs : Int) else i.natAbs) = i := by omega
  rw [readExponent_mark (by decide), hsplit, hdigits, hk]
  simp only [decide_eq_true_eq, hvalue]

/-- Digits behind a point, or none and no point either. -/
theorem readFraction_optional {ds cs : List Char} (hds : ∀ c ∈ ds, c.isDigit = true)
    (hpoint : ∀ c ∈ cs.head?, c ≠ '.') (hcs : ∀ c ∈ cs.head?, c.isDigit = false) :
    readFraction ((if ds.isEmpty then [] else '.' :: ds) ++ cs) = some (if ds.isEmpty then none else some ds, cs) := by
  cases ds with
  | nil => exact readFraction_other hpoint
  | cons d ds =>
    have hspan := @span_append Char.isDigit (d :: ds) cs fun _ => hcs
    rw [List.takeWhile_eq_self_iff.2 hds, List.dropWhile_eq_nil_iff.2 hds, List.nil_append] at hspan
    rw [List.isEmpty_cons, if_neg Bool.false_ne_true, if_neg Bool.false_ne_true, List.cons_append, readFraction,
      hspan.1, hspan.2]
    rfl

/-- The first digit stands in front of the point. -/
theorem readsFloat_scientific {s : Scaled} (hpos : 0 < s.digits) (h : s.value * (1 + epsilon) ^ 5 < 2 ^ 1024) :
    ReadsFloat (s.scientific (s.exponent + (Text.ofNat s.digits).length)) := by
  have hdigits : ∀ c ∈ Text.ofNat s.digits, c.isDigit = true := Text.isDigit_ofNat
  have hvalue := Text.foldl_ofNat s.digits
  have hhead := Text.head?_ofNat hpos
  unfold Scaled.scientific
  cases hds : Text.ofNat s.digits with
  | nil => exact absurd hds Nat.toDigits_ne_nil
  | cons d ds =>
    rw [hds] at hdigits hvalue hhead
    obtain ⟨hd, hds⟩ := List.forall_mem_cons.1 hdigits
    generalize he : s.exponent + (d :: ds).length - 1 = e
    have hmax : (((d :: ds).foldl (fun n c => 10 * n + Text.digitValue c) 0 : Nat) : ℚ) * 10 ^ (e - ds.length) *
        (1 + epsilon) ^ 5 < 2 ^ 1024 := by
      have hexponent : e - ds.length = s.exponent := by
        rw [List.length_cons] at he
        omega
      rwa [hvalue, hexponent]
    have hoptional : (if ds.isEmpty then none else some ds).getD [] = ds := by cases ds <;> rfl
    have hrest : ∀ c ∈ ((if ds.isEmpty then [] else '.' :: ds) ++ 'e' :: Text.ofInt e).head?, c.isDigit = false := by
      cases ds <;> (rintro _ ⟨⟩; rfl)
    have hfraction := @readFraction_optional ds ('e' :: Text.ofInt e) hds (by rintro _ ⟨⟩; decide)
      (by rintro _ ⟨⟩; decide)
    have hread := read_parts (List.forall_mem_singleton.2 hd) (isMalformed_of_head (List.cons_ne_nil _ _) hhead) hrest
      hfraction (readExponent_ofInt e)
    exact ⟨_, isFloat_exponent hoptional hd (fun h => hhead (congrArg some h)) hmax, rfl, hread⟩

/-! ## Doubles -/

theorem readsFloat_magnitude {s : Scaled} (hpos : 0 < s.digits) (h : s.value * (1 + epsilon) ^ 5 < 2 ^ 1024) :
    ReadsFloat (json.magnitude s) := by
  obtain ⟨hnormal, hvalue⟩ := Scaled.normalize_value hpos
  have hmax : s.normalize.value * (1 + epsilon) ^ 5 < 2 ^ 1024 := hvalue.symm ▸ h
  unfold Style.magnitude
  dsimp only
  split
  · rename_i hplaces
    have hplaces : s.normalize.exponent + (Text.ofNat s.normalize.digits).length ≤ 16 := by
      simp only [json, Option.all_some, Bool.and_eq_true, decide_eq_true_eq] at hplaces
      exact hplaces.2
    have hreads := readsFloat_positional hnormal hplaces
    have hpoint : (json.pointZero && decide (0 ≤ s.normalize.exponent)) = decide (0 ≤ s.normalize.exponent) := rfl
    simpa only [hpoint, decide_eq_true_eq] using hreads
  · exact readsFloat_scientific hnormal hmax

theorem middle_lt {b : Binary} {e : Int} (he : b.exponent ≤ e)
    (h : (b.mantissa + 1 / 2) * (1 + epsilon) ^ 5 < 2 ^ (1024 - e)) : b.middle * (1 + epsilon) ^ 5 < 2 ^ 1024 := by
  have hnonneg : 0 ≤ (b.mantissa + 1 / 2) * (1 + epsilon) ^ 5 := by
    rw [epsilon]
    positivity
  calc b.middle * (1 + epsilon) ^ 5 = (b.mantissa + 1 / 2) * (1 + epsilon) ^ 5 * 2 ^ b.exponent := by
        rw [Binary.middle, mul_right_comm]
    _ ≤ (b.mantissa + 1 / 2) * (1 + epsilon) ^ 5 * 2 ^ e :=
        mul_le_mul_of_nonneg_left (zpow_le_zpow_right₀ one_le_two he) hnonneg
    _ < 2 ^ (1024 - e) * 2 ^ e := mul_lt_mul_of_pos_right h (by positivity)
    _ = 2 ^ (1024 : Int) := by rw [← zpow_add₀ two_ne_zero, sub_add_cancel]

theorem middle_lt_of_short {b : Binary} (hshort : b.mantissa < 2 ^ 53) (he : b.exponent ≤ 971)
    (h : b.exponent ≠ 971 ∨ b.mantissa < 2 ^ 53 - 10) : b.middle * (1 + epsilon) ^ 5 < 2 ^ 1024 := by
  have hbound : ∀ {k : Nat}, b.mantissa + k ≤ 2 ^ 53 →
      (b.mantissa + 1 / 2) * (1 + epsilon) ^ 5 ≤ (2 ^ 53 - k + 1 / 2) * (1 + epsilon) ^ 5 := by
    intro k hk
    have hcast : (b.mantissa : ℚ) + k ≤ 2 ^ 53 := by exact_mod_cast hk
    exact mul_le_mul_of_nonneg_right (by linarith) (pow_nonneg (zero_le_one.trans one_le_factor) 5)
  obtain he' | hless := h
  · refine middle_lt (e := 970) (by omega) ((@hbound 1 hshort).trans_lt ?_)
    rw [epsilon]
    norm_num
  · refine middle_lt he ((@hbound 11 (by omega)).trans_lt ?_)
    rw [epsilon]
    norm_num

/-- Nothing but trying shows that the greatest doubles stay finite. -/
theorem read_greatest : ∀ k < 10,
    ((read (json.magnitude (Binary.shortest ⟨2 ^ 53 - 1 - k, 971, false⟩ json.tieUp))).any fun (n, rest) =>
      rest.isEmpty && !n.negative && (n.fraction.isSome || n.exponent.isSome) && n.float?.isSome) = true := by
  decide +kernel

theorem readsFloat_greatest {k : Nat} (hk : k < 10) :
    ReadsFloat (json.magnitude (Binary.shortest ⟨2 ^ 53 - 1 - k, 971, false⟩ json.tieUp)) := by
  obtain ⟨⟨n, rest⟩, hread, hn⟩ := (Option.any_eq_true ..).1 (read_greatest k hk)
  simp only [Bool.and_eq_true, Bool.not_eq_true', List.isEmpty_iff] at hn
  obtain ⟨⟨⟨rfl, hsign⟩, hparts⟩, hsome⟩ := hn
  exact ⟨n, ⟨hparts, hsome⟩, hsign, hread⟩

theorem readsFloat_shortest {b : Binary} (hb : b.Regular) (he : b.exponent ≤ 971) :
    ReadsFloat (json.magnitude (b.shortest json.tieUp)) := by
  have hrounds := shortest_rounds hb json.tieUp
  by_cases hgreatest : b.exponent ≠ 971 ∨ b.mantissa < 2 ^ 53 - 10
  · refine readsFloat_magnitude (hrounds.digits_pos hb.pos) (lt_of_le_of_lt ?_ (middle_lt_of_short hb.short he hgreatest))
    exact mul_le_mul_of_nonneg_right hrounds.bounds.2 (pow_nonneg (zero_le_one.trans one_le_factor) 5)
  · -- one of the ten greatest doubles, none of which is a power of two
    obtain ⟨hpos, hshort, -, hnear⟩ := hb
    obtain ⟨mantissa, exponent, nearBelow⟩ := b
    dsimp only at *
    obtain ⟨rfl, hlarge⟩ : exponent = 971 ∧ 2 ^ 53 - 10 ≤ mantissa := by omega
    have hfar : nearBelow = false := by
      by_contra hne
      have hpower := hnear (Bool.eq_true_of_not_eq_false hne)
      omega
    subst hfar
    obtain ⟨k, hk, rfl⟩ : ∃ k < 10, mantissa = 2 ^ 53 - 1 - k := ⟨2 ^ 53 - 1 - mantissa, by omega, by omega⟩
    exact readsFloat_greatest hk

theorem exponent_le_of_isFinite {x : Float} (h : x.isFinite = true) : (Binary.ofBits x.toBits).exponent ≤ 971 := by
  have hfield : x.toBits.toNat / 0x10000000000000 % 0x800 ≠ 0x7FF := by
    intro heq
    have hexponent : @unpackExponent Float.Model.Format.binary64 x.toModel.toBits.toBitVec = -1#11 := by
      have hones : (-1#11).toNat = 0x7FF := by decide
      refine BitVec.eq_of_toNat_eq ?_
      rw [hones, unpackExponent, BitVec.toNat_cast, BitVec.extractLsb_toNat, Nat.shiftRight_eq_div_pow]
      exact heq
    have hunpack : unpack Float.Model.Format.binary64 x.toModel.toBits.toBitVec = ite _ _ _ := if_pos hexponent
    change (unpack Float.Model.Format.binary64 x.toModel.toBits.toBitVec).isFinite = true at h
    rw [hunpack] at h
    split at h <;> cases h
  have hlt := Nat.mod_lt (x.toBits.toNat / 0x10000000000000) (y := 0x800) (by decide)
  unfold Binary.ofBits
  dsimp only
  generalize x.toBits.toNat / 0x10000000000000 % 0x800 = field at *
  split
  · change (-1074 : Int) ≤ 971
    decide
  · change (field : Int) - 1075 ≤ 971
    omega

/-- A finite double is written as a double. -/
theorem read_text {x : Float} (h : x.isFinite = true) :
    ∃ n y, read (json.text x).toList = some (n, []) ∧ n.toJson = .float y := by
  have he := exponent_le_of_isFinite h
  have hdigit : ∀ c ∈ ['0'], c.isDigit = true := List.forall_mem_singleton.2 rfl
  have hzero : ReadsFloat ['0', '.', '0'] := readsFloat_fraction hdigit rfl (by decide) hdigit (List.cons_ne_nil _ _)
  have hsigned : ∀ {negative : Bool} {cs : List Char}, ReadsFloat cs → ∃ n : Numeral, n.IsFloat ∧
      read (String.ofList ((if negative then ['-'] else []) ++ cs)).toList = some (n, []) := by
    intro negative cs hcs
    rw [String.toList_ofList]
    cases negative with
    | true => exact hcs.minus
    | false =>
      obtain ⟨n, hn, -, hread⟩ := hcs
      exact ⟨n, hn, hread⟩
  have hnumber := isNaN_isInf_of_isFinite h
  obtain ⟨n, hn, hread⟩ : ∃ n : Numeral, n.IsFloat ∧ read (json.text x).toList = some (n, []) := by
    unfold Style.text
    dsimp only
    rw [hnumber.1, hnumber.2, if_neg Bool.false_ne_true, if_neg Bool.false_ne_true]
    by_cases hb : (Binary.ofBits x.toBits).mantissa = 0
    · rw [if_pos (beq_iff_eq.2 hb)]
      exact hsigned hzero
    · rw [if_neg (by simpa using hb)]
      exact hsigned (readsFloat_shortest (regular_ofBits (Nat.pos_of_ne_zero hb)) he)
  obtain ⟨y, hy⟩ := hn.toJson
  exact ⟨n, y, hread, hy⟩

end Numeral

end SpatialQuery.Json
