import Mathlib.Data.List.TakeWhile
import SpatialQuery.Proofs.Decimal.Nearest
import SpatialQuery.Proofs.Numeric.Digits

/-!
What the shortest decimal is. Of the decimals that are rounded to a double the one is taken that is a multiple of the
greatest power of ten, and of several the nearest one (`isShortest_shortest`). There is no other such decimal
(`Binary.IsShortest.unique`).
-/

namespace SpatialQuery.Decimal

/-- No multiple of the next power of ten is rounded to the number, and no multiple of this one is nearer to it. The
greater one of two equally near ones is taken. -/
structure Binary.IsShortest (b : Binary) (s : Scaled) : Prop where
  rounds : b.Rounds s.value
  coarsest (n : ℕ) : ¬b.Rounds (Scaled.value ⟨n, s.exponent + 1⟩)
  nearest (n : ℕ) : b.Rounds (Scaled.value ⟨n, s.exponent⟩) →
    |s.value - b.value| ≤ |Scaled.value ⟨n, s.exponent⟩ - b.value| ∧
      (|s.value - b.value| = |Scaled.value ⟨n, s.exponent⟩ - b.value| → n ≤ s.digits)

variable {b : Binary}

theorem Binary.IsShortest.exponent_le {b : Binary} {s s' : Scaled} (h : b.IsShortest s) (h' : b.IsShortest s') :
    s'.exponent ≤ s.exponent := by
  by_contra hlt
  obtain ⟨n, hn⟩ := exists_finer s'.digits (Int.add_one_le_of_lt (not_le.1 hlt))
  exact h.coarsest n (hn ▸ h'.rounds)

theorem Binary.IsShortest.unique {b : Binary} {s s' : Scaled} (h : b.IsShortest s) (h' : b.IsShortest s') : s = s' := by
  obtain ⟨n, unit⟩ := s
  obtain ⟨n', unit'⟩ := s'
  obtain rfl : unit = unit' := le_antisymm (h'.exponent_le h) (h.exponent_le h')
  obtain ⟨hle, hn⟩ := h.nearest n' h'.rounds
  obtain ⟨hle', hn'⟩ := h'.nearest n h.rounds
  have heq := le_antisymm hle hle'
  obtain rfl : n = n' := Nat.le_antisymm (hn' heq.symm) (hn heq)
  rfl

/-! ## The grids that are tried -/

/-- The mantissa has 53 binary digits, and fewer only at the least exponent. -/
structure Binary.Regular (b : Binary) : Prop where
  pos : 0 < b.mantissa
  short : b.mantissa < 2 ^ 53
  long : b.mantissa < 2 ^ 52 → b.exponent = -1074
  power : b.nearBelow = true → b.mantissa = 2 ^ 52

theorem regular_ofBits {bits : UInt64} (h : 0 < (Binary.ofBits bits).mantissa) : (Binary.ofBits bits).Regular := by
  have hfraction := Nat.mod_lt bits.toNat (y := 0x10000000000000) (by decide)
  unfold Binary.ofBits at h ⊢
  dsimp only at h ⊢
  generalize bits.toNat % 0x10000000000000 = fraction at *
  generalize bits.toNat / 0x10000000000000 % 0x800 = field at *
  split
  · rename_i hfield
    rw [if_pos hfield] at h
    exact ⟨h, by change fraction < 2 ^ 53; omega, fun _ => rfl, nofun⟩
  · refine ⟨Nat.add_pos_left (by decide) _, ?_, fun hlt => ?_, fun hnear => ?_⟩
    · change 0x10000000000000 + fraction < 2 ^ 53
      omega
    · change 0x10000000000000 + fraction < 2 ^ 52 at hlt
      omega
    · obtain rfl : fraction = 0 := by simpa using (Bool.and_eq_true_iff.1 hnear).1
      rfl

/-- The number has no more digits than it needs. -/
theorem pow_length_le {n : Nat} (hpos : 0 < n) : 10 ^ (Text.ofNat n).length ≤ 10 * n := by
  have hlength := Nat.length_toDigits_pos (b := 10) (n := n)
  obtain ⟨k, hk⟩ : ∃ k, (Text.ofNat n).length = k + 1 := ⟨_, (Nat.sub_add_cancel hlength).symm⟩
  rw [hk, Nat.pow_succ, Nat.mul_comm]
  refine Nat.mul_le_mul_left _ ?_
  by_cases hzero : k = 0
  · subst hzero
    exact hpos
  · refine Nat.le_of_not_lt fun hlt => ?_
    have hle := (Nat.length_toDigits_le_iff (b := 10) (by decide) (Nat.pos_of_ne_zero hzero)).2 hlt
    rw [Text.ofNat] at hk
    omega

theorem lt_pow_length (n : ℕ) : n < 10 ^ (Text.ofNat n).length := by
  have hlt : Numeric.number (Text.ofNat n) < _ := Numeric.number_lt Text.isDigit_ofNat
  rwa [Numeric.number_ofNat] at hlt

/-- A quotient of at least one lies between the powers of ten that its whole part lies between. -/
theorem quotient_bounds {num den : ℕ} (hden : 0 < den) (h : den ≤ num) :
    num < 10 ^ (Text.ofNat (num / den)).length * den ∧ 10 ^ (Text.ofNat (num / den)).length * den ≤ 10 * num := by
  have hlong := Nat.mul_le_mul_right den (pow_length_le (Nat.div_pos h hden))
  rw [Nat.mul_assoc] at hlong
  exact ⟨(Nat.div_lt_iff_lt_mul hden).1 (lt_pow_length (num / den)),
    hlong.trans (Nat.mul_le_mul_left 10 (Nat.div_mul_le_self num den))⟩

/-- The number has so many places, or one less. -/
theorem places_bounds (hpos : 0 < b.mantissa) :
    (10 : ℚ) ^ (b.places - 2) < b.value ∧ b.value < 10 ^ b.places := by
  have htwo := powerFactors_div (by decide : 0 < 2) b.exponent
  obtain ⟨hnum, hden⟩ := powerFactors_pos (by decide : 0 < 2) b.exponent
  have hvalue : b.value = (b.mantissa * (powerFactors 2 b.exponent).1 : ℕ) / (powerFactors 2 b.exponent).2 := by
    push_cast at htwo ⊢
    rw [Binary.value, ← htwo, mul_div_assoc]
  have hone := powerFactors_eq_one 2 b.exponent
  unfold Binary.places
  dsimp only
  rw [hvalue]
  generalize powerFactors 2 b.exponent = two at *
  have hden' : (0 : ℚ) < two.2 := by exact_mod_cast hden
  rcases Nat.lt_or_ge (b.mantissa * two.1) two.2 with hless | hmore
  · -- the number is less than one, and its inverse has the places
    have hone : two.1 = 1 := hone.resolve_right fun h => by
      have hproduct := Nat.mul_pos hpos hnum
      omega
    rw [hone, Nat.mul_one] at hless ⊢
    obtain ⟨hlt, hle⟩ := quotient_bounds hpos hless.le
    rw [Nat.div_eq_of_lt hless, if_neg (by simp)]
    generalize (Text.ofNat (two.2 / b.mantissa)).length = k at *
    have hplaces : (10 : ℚ) ^ (2 - k : Int) = 100 / 10 ^ k := by
      rw [zpow_sub₀ (by norm_num), zpow_natCast]
      norm_num
    have hplaces' : (10 : ℚ) ^ (2 - k - 2 : Int) = 1 / 10 ^ k := by
      rw [sub_sub_cancel_left, zpow_neg, zpow_natCast, one_div]
    have hpow : (0 : ℚ) < 10 ^ k := by positivity
    have hshort : 10 ^ k * b.mantissa < 100 * two.2 := by omega
    rw [hplaces, hplaces', div_lt_div_iff₀ hpow hden', div_lt_div_iff₀ hden' hpow, one_mul, mul_comm (b.mantissa : ℚ)]
    exact ⟨by exact_mod_cast hlt, by exact_mod_cast hshort⟩
  · -- the places are those of the whole part
    obtain ⟨hlt, hle⟩ := quotient_bounds hden hmore
    rw [if_pos (bne_iff_ne.2 (Nat.div_pos hmore hden).ne')]
    generalize b.mantissa * two.1 = num at *
    generalize (Text.ofNat (num / two.2)).length = k at *
    have hplaces : (10 : ℚ) ^ (k - 2 : Int) = 10 ^ k / 100 := by
      rw [zpow_sub₀ (by norm_num), zpow_natCast]
      norm_num
    have hshort : 10 ^ k * two.2 < 100 * num := by omega
    rw [hplaces, zpow_natCast, lt_div_iff₀ hden', div_lt_iff₀ hden', div_mul_eq_mul_div, div_lt_iff₀ (by norm_num),
      mul_comm (num : ℚ)]
    exact ⟨by exact_mod_cast hshort, by exact_mod_cast hlt⟩

/-- Seventeen places behind the first one are enough. -/
theorem width_of_places (hb : b.Regular) : (10 : ℚ) ^ (b.places - 1 - (17 : ℕ)) < b.middle - b.low := by
  have hlow := (places_bounds hb.pos).1
  have hpow : (0 : ℚ) < 2 ^ b.exponent := by positivity
  have hunit : (10 : ℚ) ^ (b.places - 1 - (17 : ℕ)) = 10 ^ (b.places - 2) / 10 ^ 16 := by
    have he : b.places - 1 - (17 : ℕ) = b.places - 2 - (16 : ℕ) := by push_cast; ring
    rw [he, zpow_sub₀ (by norm_num), zpow_natCast]
  have hmantissa : (b.mantissa : ℚ) < 10 ^ 16 * (1 / 2 + if b.nearBelow then 1 / 4 else 1 / 2) := by
    split
    · rw [hb.power ‹_›]
      norm_num
    · have hshort : (b.mantissa : ℚ) < 2 ^ 53 := by exact_mod_cast hb.short
      linarith
  rw [hunit, div_lt_iff₀ (by positivity), Binary.middle, Binary.low]
  calc (10 : ℚ) ^ (b.places - 2) < b.mantissa * 2 ^ b.exponent := hlow
    _ < 10 ^ 16 * (1 / 2 + if b.nearBelow then 1 / 4 else 1 / 2) * 2 ^ b.exponent :=
        mul_lt_mul_of_pos_right hmantissa hpow
    _ = _ := by ring

/-- The decimal is on the first grid on which there is one. -/
theorem shortest_found (hb : b.Regular) (tieUp : Bool) :
    ∃ n : ℕ, b.onGrid? tieUp (b.places - 1 - n) = some (b.shortest tieUp) ∧
      ∀ m < n, b.onGrid? tieUp (b.places - 1 - m) = none := by
  unfold Binary.shortest
  cases hfound : (List.range 18).findSome? fun (n : Nat) => b.onGrid? tieUp (b.places - 1 - n) with
  | none =>
    have hsome := isSome_of_width hb.pos tieUp (width_of_places hb)
    rw [List.findSome?_eq_none_iff.1 hfound 17 (by simp)] at hsome
    cases hsome
  | some s =>
    obtain ⟨before, n, after, hsplit, hgrid, hnone⟩ := List.findSome?_eq_some_iff.1 hfound
    refine ⟨n, hgrid, fun m hm => hnone m ?_⟩
    have hsorted := List.pairwise_lt_range (n := 18)
    have hn : n ∈ List.range 18 := by simp [hsplit]
    have hmem : m ∈ List.range 18 := List.mem_range.2 (hm.trans (List.mem_range.1 hn))
    rw [hsplit] at hsorted hmem
    rcases List.mem_append.1 hmem with hmem | hmem
    · exact hmem
    · rcases List.mem_cons.1 hmem with rfl | hmem
      · exact absurd hm (lt_irrefl m)
      · have hlt := List.rel_of_pairwise_cons (List.pairwise_append.1 hsorted).2.1 hmem
        exact absurd hm (not_lt.2 hlt.le)

theorem shortest_rounds (hb : b.Regular) (tieUp : Bool) : b.Rounds (b.shortest tieUp).value := by
  obtain ⟨n, hgrid, -⟩ := shortest_found hb tieUp
  exact (rounds_of_some hb.pos hgrid).2

/-! ## Zeros at the end -/

theorem zeros_lt {n : Nat} (hpos : 0 < n) :
    ((Text.ofNat n).reverse.takeWhile (· == '0')).length < (Text.ofNat n).length := by
  have hle := ((Text.ofNat n).reverse.takeWhile_sublist (· == '0')).length_le
  rw [List.length_reverse] at hle
  refine Nat.lt_of_le_of_ne hle fun heq => ?_
  rw [← (Text.ofNat n).length_reverse] at heq
  have hall := List.takeWhile_eq_self_iff.1 ((List.takeWhile_sublist _).eq_of_length heq)
  cases hdigits : Text.ofNat n with
  | nil => exact Nat.toDigits_ne_nil hdigits
  | cons d ds =>
    have hhead := Text.head?_ofNat hpos
    rw [hdigits] at hall hhead
    exact hhead (congrArg some (by simpa using hall d (by simp)))

theorem normalize_shift {s : Scaled} (hpos : 0 < s.digits) : ∃ k : ℕ, s.digits = s.normalize.digits * 10 ^ k ∧
    s.normalize.exponent = s.exponent + k ∧ (Text.ofNat s.normalize.digits).getLast? ≠ some '0' := by
  have hlt := zeros_lt hpos
  have hdigits : Numeric.IsDigits (Text.ofNat s.digits) := Text.isDigit_ofNat
  have hhead := Text.head?_ofNat hpos
  have hnumber := Numeric.number_ofNat s.digits
  have hnot := List.head?_dropWhile_not (· == '0') (Text.ofNat s.digits).reverse
  have hzeros : ∀ c ∈ (Text.ofNat s.digits).reverse.takeWhile (· == '0'), c = '0' := fun c hc =>
    eq_of_beq (List.mem_takeWhile_imp (p := (· == '0')) hc)
  have hsplit := List.takeWhile_append_dropWhile (p := (· == '0')) (l := (Text.ofNat s.digits).reverse)
  have hnormal : s.normalize = ⟨s.digits / 10 ^ ((Text.ofNat s.digits).reverse.takeWhile (· == '0')).length,
      s.exponent + ((Text.ofNat s.digits).reverse.takeWhile (· == '0')).length⟩ := if_neg (by simpa using hpos.ne')
  rw [hnormal]
  generalize (Text.ofNat s.digits).reverse.takeWhile (· == '0') = zeros at *
  generalize (Text.ofNat s.digits).reverse.dropWhile (· == '0') = rest at *
  -- the zeros at the end are counted in the reversed digits
  have hreplicate : zeros.reverse = List.replicate zeros.length '0' := by
    rw [List.eq_replicate_iff]
    exact ⟨List.length_reverse, fun c hc => hzeros c (List.mem_reverse.1 hc)⟩
  have happend : Text.ofNat s.digits = rest.reverse ++ List.replicate zeros.length '0' := by
    rw [← hreplicate, ← List.reverse_append, hsplit, List.reverse_reverse]
  rw [happend] at hlt hdigits hhead hnumber
  have hfront : rest.reverse ≠ [] := by
    rintro hnil
    simp [hnil] at hlt
  obtain ⟨c, cs, hcs⟩ := List.exists_cons_of_ne_nil hfront
  have hfrontDigits : Numeric.IsDigits rest.reverse := fun c hc => hdigits c (List.mem_append_left _ hc)
  have hquotient : s.digits = Numeric.number rest.reverse * 10 ^ zeros.length := by
    rw [← hnumber, Numeric.number_append, Numeric.number_zeros, List.length_replicate, Nat.add_zero]
  have hdiv : s.digits / 10 ^ zeros.length = Numeric.number rest.reverse := by
    rw [hquotient, Nat.mul_div_cancel _ (Nat.pow_pos (by decide))]
  refine ⟨zeros.length, ?_, rfl, ?_⟩
  · rw [hdiv]
    exact hquotient
  · rw [hdiv, Numeric.ofNat_number hfrontDigits hfront (by simpa [hcs] using hhead), List.getLast?_reverse]
    intro hlast
    rw [hlast] at hnot
    cases hnot

theorem Scaled.normalize_value {s : Scaled} (hpos : 0 < s.digits) :
    0 < s.normalize.digits ∧ s.normalize.value = s.value := by
  obtain ⟨k, hdigits, hexponent, -⟩ := normalize_shift hpos
  obtain ⟨digits, unit⟩ := s
  generalize Scaled.normalize ⟨digits, unit⟩ = t at *
  obtain ⟨n, unit'⟩ := t
  dsimp only at hdigits hexponent hpos ⊢
  subst hdigits hexponent
  exact ⟨Nat.pos_of_mul_pos_right hpos, (value_shift n k unit).symm⟩

/-- A shortest decimal has no zeros at the end. -/
theorem Binary.IsShortest.normalize_eq {s : Scaled} (h : b.IsShortest s) (hpos : 0 < s.digits) : s.normalize = s := by
  obtain ⟨k, hdigits, hexponent, -⟩ := normalize_shift hpos
  obtain ⟨digits, unit⟩ := s
  generalize Scaled.normalize ⟨digits, unit⟩ = t at *
  obtain ⟨n, unit'⟩ := t
  dsimp only at hdigits hexponent
  subst hdigits hexponent
  cases k with
  | zero => simp
  | succ k =>
    refine absurd h.rounds ?_
    have hshift : Scaled.value ⟨n * 10 ^ (k + 1), unit⟩ = Scaled.value ⟨n * 10 ^ k, unit + 1⟩ := by
      rw [value_shift, value_shift]
      push_cast
      rw [add_comm (k : Int), add_assoc]
    rw [hshift]
    exact h.coarsest _

/-! ## A power of ten above the number -/

theorem least_double : 2 * (2 : ℚ) ^ (-1074 : Int) < 10 ^ (-323 : Int) ∧
    10 * (10 : ℚ) ^ (-323 : Int) ≤ 21 * 2 ^ (-1074 : Int) := by
  have hlow : 2 * 10 ^ 323 < 2 ^ 1074 := by decide +kernel
  have hhigh : 10 * 2 ^ 1074 ≤ 21 * 10 ^ 323 := by decide +kernel
  have hlow' : (2 : ℚ) * 10 ^ 323 < 2 ^ 1074 := by exact_mod_cast hlow
  have hhigh' : (10 : ℚ) * 2 ^ 1074 ≤ 21 * 10 ^ 323 := by exact_mod_cast hhigh
  have htwo : (2 : ℚ) ^ (-1074 : Int) = 1 / 2 ^ 1074 := by rw [zpow_neg, one_div]; rfl
  have hten : (10 : ℚ) ^ (-323 : Int) = 1 / 10 ^ 323 := by rw [zpow_neg, one_div]; rfl
  rw [htwo, hten, mul_one_div, mul_one_div, mul_one_div, div_lt_div_iff₀ (by positivity) (by positivity),
    div_le_div_iff₀ (by positivity) (by positivity), one_mul]
  exact ⟨hlow', hhigh'⟩

/-- A power of ten that is rounded to the number is at least as near to it as nine tenths of the power. -/
theorem tenth_le (hb : b.Regular) {p : Int} (hlt : b.value < 10 ^ p) (hround : b.Rounds (10 ^ p)) :
    (10 : ℚ) ^ p - b.value ≤ b.value - 9 * 10 ^ (p - 1) := by
  have hle := hround.bounds.2
  have htenth : (10 : ℚ) ^ (p - 1) = 10 ^ p / 10 := zpow_sub_one₀ (by norm_num) p
  suffices h : 19 * (10 : ℚ) ^ p ≤ 20 * b.value by
    rw [htenth]
    linarith
  rw [Binary.value] at hlt ⊢
  rw [Binary.middle] at hle
  rcases Nat.lt_or_ge b.mantissa 10 with hsmall | hlarge
  · -- of the least doubles only the second one is that near to a power of ten
    rw [hb.long (by omega)] at hlt hle ⊢
    obtain ⟨hlow, hhigh⟩ := least_double
    have hpos : (1 : ℚ) ≤ b.mantissa := by exact_mod_cast hb.pos
    have hsmall : (b.mantissa : ℚ) ≤ 9 := by exact_mod_cast Nat.le_of_lt_succ hsmall
    have hunit : (0 : ℚ) < 2 ^ (-1074 : Int) := by positivity
    generalize (2 : ℚ) ^ (-1074 : Int) = t at *
    rcases lt_trichotomy p (-323) with hp | rfl | hp
    · have hpow : (10 : ℚ) ^ p ≤ 10 ^ (-323 - 1 : Int) := zpow_le_zpow_right₀ (by norm_num) (by omega)
      rw [zpow_sub_one₀ (by norm_num)] at hpow
      nlinarith
    · have hone : (1 : ℚ) < b.mantissa := by nlinarith
      have htwo : (2 : ℚ) ≤ b.mantissa := by exact_mod_cast Nat.succ_le_of_lt (by exact_mod_cast hone)
      nlinarith
    · have hpow : (10 : ℚ) ^ (-323 + 1 : Int) ≤ 10 ^ p := zpow_le_zpow_right₀ (by norm_num) (by omega)
      rw [zpow_add_one₀ (by norm_num)] at hpow
      nlinarith
  · have hlarge : (10 : ℚ) ≤ b.mantissa := by exact_mod_cast hlarge
    have hpow : (0 : ℚ) < 2 ^ b.exponent := by positivity
    nlinarith

/-! ## The shortest decimal -/

/-- A power of ten above the number that is rounded to it is a shortest decimal. -/
theorem isShortest_one (hpos : 0 < b.mantissa) {p : Int} (hlt : b.value < 10 ^ p) (hround : b.Rounds (10 ^ p)) :
    b.IsShortest ⟨1, p⟩ := by
  have hpow : (0 : ℚ) < 10 ^ p := by positivity
  have hmiddle : b.middle < 2 * 10 ^ p := by
    have hunit : (0 : ℚ) < 2 ^ b.exponent := by positivity
    have hmantissa : (1 : ℚ) ≤ b.mantissa := by exact_mod_cast hpos
    rw [Binary.value] at hlt
    rw [Binary.middle]
    nlinarith
  refine ⟨value_one p ▸ hround, fun n hn => ?_, fun n hn => ?_⟩
  · have hle := (value_mono (hn.digits_pos hpos) (p + 1)).trans hn.bounds.2
    rw [value_one, zpow_add_one₀ (by norm_num)] at hle
    linarith
  · have hless : n ≤ 1 := Nat.le_of_not_lt fun hmore => by
      have hle := (value_mono hmore p).trans hn.bounds.2
      rw [value_succ, value_one] at hle
      linarith
    obtain rfl : n = 1 := Nat.le_antisymm hless (hn.digits_pos hpos)
    exact ⟨le_rfl, fun _ => le_rfl⟩

/-- On the first grid, the power of ten above the number is taken if it is rounded to the number. -/
theorem digits_eq_ten (hb : b.Regular) {p : Int} (hlt : b.value < 10 ^ p) (hround : b.Rounds (10 ^ p)) {n : ℕ}
    (hnearest : |Scaled.value ⟨n, p - 1⟩ - b.value| ≤ |10 ^ p - b.value| ∧
      (|Scaled.value ⟨n, p - 1⟩ - b.value| = |10 ^ p - b.value| → 10 ≤ n)) : n = 10 := by
  have htenth := tenth_le hb hlt hround
  have hnine : Scaled.value ⟨9, p - 1⟩ = 9 * 10 ^ (p - 1) := rfl
  obtain ⟨hle, htie⟩ := hnearest
  rw [abs_of_pos (sub_pos.2 hlt)] at hle htie
  rcases Nat.lt_trichotomy n 10 with hless | rfl | hmore
  · have hmono := value_mono (Nat.le_of_lt_succ hless) (p - 1)
    rw [hnine] at hmono
    rw [abs_of_nonpos (by linarith)] at hle htie
    exact absurd (htie (by linarith)) (not_le.2 hless)
  · rfl
  · have hmono := value_strictMono hmore (p - 1)
    rw [value_ten] at hmono
    rw [abs_of_pos (by linarith)] at hle
    linarith

theorem isShortest_shortest (hb : b.Regular) : b.IsShortest (b.shortest true).normalize := by
  obtain ⟨n, hgrid, hnone⟩ := shortest_found hb true
  obtain ⟨hunit, hrounds⟩ := rounds_of_some hb.pos hgrid
  have hnearest := fun m hm => And.imp_right (· rfl) (@nearest_of_some b _ hb.pos true _ hgrid m hm)
  obtain ⟨-, hplaces⟩ := places_bounds hb.pos
  generalize b.shortest true = s at *
  obtain ⟨digits, unit⟩ := s
  dsimp only at hunit
  subst hunit
  by_cases hten : n = 0 ∧ b.Rounds (10 ^ b.places)
  · obtain ⟨rfl, hround⟩ := hten
    rw [Nat.cast_zero, sub_zero] at hnearest ⊢
    have htaken := hnearest 10 ((value_ten b.places).symm ▸ hround)
    rw [value_ten] at htaken
    obtain rfl := digits_eq_ten hb hplaces hround htaken
    have htext : Text.ofNat 10 = ['1', '0'] := by decide
    have hnormal : Scaled.normalize ⟨10, b.places - 1⟩ = ⟨1, b.places⟩ := by simp [Scaled.normalize, htext]
    rw [hnormal]
    exact isShortest_one hb.pos hplaces hround
  · -- no decimal with less places is rounded to the number
    have hshortest : b.IsShortest ⟨digits, b.places - 1 - n⟩ := by
      refine ⟨hrounds, fun m hm => ?_, hnearest⟩
      dsimp only at hm
      cases n with
      | succ n =>
        have hcoarser : b.places - 1 - (n + 1 : ℕ) + 1 = b.places - 1 - n := by
          push_cast
          ring
        exact not_rounds_of_none hb.pos (hnone n (Nat.lt_succ_self n)) m (hcoarser ▸ hm)
      | zero =>
        rw [Nat.cast_zero, sub_zero, sub_add_cancel] at hm
        have hle := value_mono (hm.digits_pos hb.pos) b.places
        rw [value_one] at hle
        exact hten ⟨rfl, hm.down hle hplaces.le⟩
    rwa [hshortest.normalize_eq (hrounds.digits_pos hb.pos)]

end SpatialQuery.Decimal
