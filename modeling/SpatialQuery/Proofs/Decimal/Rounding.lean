import Mathlib.Algebra.Order.Field.Power
import Mathlib.Data.Rat.Cast.Order
import Mathlib.Tactic.FieldSimp
import Mathlib.Tactic.Linarith
import Mathlib.Tactic.Positivity
import Mathlib.Tactic.Ring

/-!
Arithmetic of doubles from one upwards. A result is greater than the exact one by a factor of at most `1 + 2 ^ -52`, and
is finite if that is less than `2 ^ 1024` (`UpTo.mul`).
-/

namespace SpatialQuery.Decimal

open Float.Model Float.Model.UnpackedFloat

/-- The distance between one and the next double. -/
def epsilon : ℚ := 1 / 2 ^ 52

/-! ## Shifting and rounding -/

theorem shift_mantissa (m : ExtendedMantissa) (k : Nat) : (m >>> k).mantissa = m.mantissa / 2 ^ k := by
  induction k with
  | zero => exact (Nat.div_one _).symm
  | succ k ih =>
    change (m >>> k).mantissa / 2 = _
    rw [ih, Nat.div_div_eq_div_mul, Nat.pow_succ]

theorem roundedMantissa_bounds (m : ExtendedMantissa) :
    m.mantissa ≤ m.roundedMantissa ∧ m.roundedMantissa ≤ m.mantissa + 1 := by
  obtain ⟨n, roundBit, stickyBit⟩ := m
  cases roundBit with
  | false => cases stickyBit <;> exact ⟨Nat.le_refl n, Nat.le_succ n⟩
  | true =>
    cases stickyBit with
    | true => exact ⟨Nat.le_succ n, Nat.le_refl _⟩
    | false =>
      change n ≤ n + n % 2 ∧ n + n % 2 ≤ n + 1
      omega

theorem targetExponent_eq (e : Int) : Format.binary64.targetExponent e = max (e - 53) (-1074) :=
  rfl

/-- A number of at least 53 digits is cut down to 53. -/
theorem shiftToTargetExponent_long {m : Nat} {e : Int} (hm : 52 ≤ m.log2) (he : -1074 ≤ m.log2 + e - 52) :
    ∃ x, shiftToTargetExponent Format.binary64 m e .exact = (x, m.log2 + e - 52) ∧
      x.mantissa = m / 2 ^ (m.log2 - 52) := by
  have htarget : Format.binary64.targetExponent (totalExponent m e) = m.log2 + e - 52 := by
    rw [targetExponent_eq, totalExponent]
    omega
  have hshift : (m.log2 + e - 52 - e).toNat = m.log2 - 52 := by omega
  rw [shiftToTargetExponent, htarget, shiftToExponent, hshift]
  refine ⟨_, Prod.ext rfl ?_, shift_mantissa _ _⟩
  dsimp only
  omega

theorem shifted_bounds {m : Nat} (hm : 52 ≤ m.log2) :
    2 ^ 52 ≤ m / 2 ^ (m.log2 - 52) ∧ m / 2 ^ (m.log2 - 52) < 2 ^ 53 := by
  have hne : m ≠ 0 := by
    rintro rfl
    exact absurd hm (by decide)
  constructor
  · rw [Nat.le_div_iff_mul_le (Nat.two_pow_pos _), ← Nat.pow_add, Nat.add_sub_of_le hm]
    exact Nat.log2_self_le hne
  · have hlt := Nat.lt_log2_self (n := m)
    rw [Nat.div_lt_iff_lt_mul (Nat.two_pow_pos _), ← Nat.pow_add]
    rwa [show 53 + (m.log2 - 52) = m.log2 + 1 by omega]

theorem shifted_le (m k : Nat) (e : Int) : ((m / 2 ^ k : Nat) : ℚ) * 2 ^ (e + k) ≤ m * 2 ^ e := by
  have hle : ((m / 2 ^ k : Nat) : ℚ) * 2 ^ k ≤ m := by exact_mod_cast Nat.div_mul_le_self m (2 ^ k)
  calc ((m / 2 ^ k : Nat) : ℚ) * 2 ^ (e + k) = (m / 2 ^ k : Nat) * 2 ^ k * 2 ^ e := by
        rw [zpow_add₀ two_ne_zero, zpow_natCast]
        ring
    _ ≤ m * 2 ^ e := mul_le_mul_of_nonneg_right hle (by positivity)

/-- Rounding leaves 53 digits, and adds less than one in the last of them. -/
theorem roundWithAccuracy_long {s : Sign} {m : Nat} {e : Int} (hm : 52 ≤ m.log2) (he : 0 ≤ m.log2 + e) :
    ∃ m' e' h, roundWithAccuracy Format.binary64 s m e .exact = .finite s m' e' h ∧ 2 ^ 52 ≤ m' ∧ m' < 2 ^ 53 ∧
      -52 ≤ e' ∧ (m' : ℚ) * 2 ^ e' ≤ m * 2 ^ e * (1 + epsilon) := by
  obtain ⟨x, hx, hmantissa⟩ := shiftToTargetExponent_long hm (e := e) (by omega)
  obtain ⟨hlow, hhigh⟩ := roundedMantissa_bounds x
  obtain ⟨hfirst, -⟩ := shifted_bounds hm
  rw [hmantissa] at hlow hhigh
  -- rounding up may carry into a 54th digit, so what is rounded is shifted once more
  have hr : 52 ≤ x.roundedMantissa.log2 := (Nat.le_log2 (by omega)).2 (by omega)
  obtain ⟨y, hy, hmantissa'⟩ := shiftToTargetExponent_long hr (e := m.log2 + e - 52) (by omega)
  obtain ⟨hlow', hhigh'⟩ := shifted_bounds hr
  have hpos : ¬y.mantissa = 0 := by omega
  refine ⟨y.mantissa, x.roundedMantissa.log2 + (m.log2 + e - 52) - 52, Nat.pos_of_ne_zero hpos, ?_, by omega, by omega,
    by omega, ?_⟩
  · rw [roundWithAccuracy, hx]
    dsimp only
    rw [hy]
    exact dif_neg hpos
  · obtain ⟨k, hk⟩ := Nat.exists_eq_add_of_le hm
    have hm0 : m ≠ 0 := by
      rintro rfl
      exact absurd hm (by decide)
    have hlast : (2 : ℚ) ^ k ≤ m * epsilon := by
      have hle : 2 ^ (52 + k) ≤ m := hk ▸ Nat.log2_self_le hm0
      rw [epsilon, mul_one_div, le_div_iff₀ (by positivity)]
      rw [Nat.pow_add, Nat.mul_comm] at hle
      exact_mod_cast hle
    rw [hk, Nat.add_sub_cancel_left] at hhigh
    rw [hmantissa', show (x.roundedMantissa.log2 : Int) + (m.log2 + e - 52) - 52 =
      (e + k) + (x.roundedMantissa.log2 - 52 : Nat) by omega]
    calc ((x.roundedMantissa / 2 ^ (x.roundedMantissa.log2 - 52) : Nat) : ℚ) *
          2 ^ ((e + k) + (x.roundedMantissa.log2 - 52 : Nat))
        ≤ x.roundedMantissa * 2 ^ (e + k) := shifted_le _ _ _
      _ ≤ ((m / 2 ^ k : Nat) + 1) * 2 ^ (e + k) :=
          mul_le_mul_of_nonneg_right (by exact_mod_cast hhigh) (by positivity)
      _ = (m / 2 ^ k : Nat) * 2 ^ (e + k) + 2 ^ k * 2 ^ e := by
          rw [zpow_add₀ two_ne_zero, zpow_natCast]
          ring
      _ ≤ m * 2 ^ e + m * epsilon * 2 ^ e :=
          add_le_add (shifted_le m k e) (mul_le_mul_of_nonneg_right hlast (by positivity))
      _ = m * 2 ^ e * (1 + epsilon) := by ring

/-! ## The bits of a double -/

theorem pack_normal {s : Sign} {m : Nat} {e : Int} {h : 0 < m} {biased : Nat} (hlog : m.log2 = 52)
    (hbiased : e + 1075 = biased) (hmax : biased < 2047) :
    UnpackedFloat.pack Format.binary64 (.finite s m e h) =
      packComponents Format.binary64 s (BitVec.ofNat 11 biased) (BitVec.ofNat 52 m) := by
  have hexponent : (e + (Format.binary64.exponentBias : Int) +
      (Format.binary64.mantissaBitsWithoutImplicit : Int)).toNat = biased := by
    have hbias : (Format.binary64.exponentBias : Int) = 1023 := by decide
    have hbits : (Format.binary64.mantissaBitsWithoutImplicit : Int) = 52 := by decide
    rw [hbias, hbits]
    omega
  have hfits : ¬2 ^ Format.binary64.exponentBits ≤ biased + 1 := by
    have hbits : 2 ^ Format.binary64.exponentBits = 2048 := by decide
    omega
  have hlong : m.log2 + 1 = Format.binary64.mantissaBits := by
    have hbits : Format.binary64.mantissaBits = 53 := by decide
    omega
  subst hexponent
  exact (if_neg hfits).trans (if_pos hlong)

theorem unpack_normal {b : BitVec Format.binary64.numBits} {m : Nat} {e : Int} (h : 0 < m)
    (hfinite : ¬unpackExponent b = -1#11) (hnormal : ¬unpackExponent b = 0#11)
    (hm : (1#1 ++ unpackMantissa b).toNat = m) (he : (unpackExponent b).toNat - 1075 = e) :
    UnpackedFloat.unpack Format.binary64 b = .finite (Sign.ofBitVec (unpackSign b)) m e h := by
  subst hm he
  exact (if_neg hfinite).trans (if_neg hnormal)

/-- The leading digit is not among the 52 that are kept. -/
theorem leading_append {m : Nat} (hlow : 2 ^ 52 ≤ m) (hhigh : m < 2 ^ 53) : (1#1 ++ BitVec.ofNat 52 m).toNat = m := by
  have hone : (1#1).toNat = 1 := by decide
  have hbits : (BitVec.ofNat 52 m).toNat = m % 2 ^ 52 := BitVec.toNat_ofNat ..
  have hrest : m % 2 ^ 52 = m - 2 ^ 52 := by
    rw [Nat.mod_eq_sub_mod hlow, Nat.mod_eq_of_lt (by omega)]
  have hlt : m % 2 ^ 52 < 2 ^ 52 := Nat.mod_lt _ (by decide)
  rw [BitVec.toNat_append, hone, hbits, Nat.shiftLeft_eq, ← Nat.two_pow_add_eq_or_of_lt hlt 1]
  omega

theorem unpack_pack {s : Sign} {m : Nat} {e : Int} {h : 0 < m} (hlow : 2 ^ 52 ≤ m) (hhigh : m < 2 ^ 53)
    (he : -1074 ≤ e) (he' : e ≤ 971) : ∃ s', (Float.Model.pack (.finite s m e h)).unpack = .finite s' m e h := by
  have hlog : m.log2 = 52 := (Nat.log2_eq_iff (by omega)).2 ⟨hlow, hhigh⟩
  obtain ⟨biased, hbiased⟩ : ∃ biased : Nat, e + 1075 = biased := ⟨(e + 1075).toNat, by omega⟩
  have hexponent : (BitVec.ofNat 11 biased).toNat = biased := Nat.mod_eq_of_lt (by omega)
  have hbits : ∀ {k : BitVec 11}, k.toNat ≠ biased → ¬BitVec.ofNat 11 biased = k := by
    rintro _ hk rfl
    exact hk hexponent
  have hones : (-1#11).toNat = 2047 := by decide
  have hzero : (0#11).toNat = 0 := by decide
  change ∃ s', UnpackedFloat.unpack Format.binary64 (UnpackedFloat.pack Format.binary64 (.finite s m e h)) = _
  rw [pack_normal hlog hbiased (by omega)]
  refine ⟨_, unpack_normal h ?_ ?_ ?_ ?_⟩
  · rw [unpackExponent_packComponents]
    exact hbits (by omega)
  · rw [unpackExponent_packComponents]
    exact hbits (by omega)
  · rw [unpackMantissa_packComponents]
    exact leading_append hlow hhigh
  · rw [unpackExponent_packComponents, hexponent]
    omega

/-! ## Doubles from one upwards -/

/-- What is finite is a number, and not infinite. -/
theorem isNaN_isInf_of_isFinite {x : Float} (h : x.isFinite = true) : x.isNaN = false ∧ x.isInf = false := by
  change x.toModel.unpack.isFinite = true at h
  change x.toModel.unpack.isNaN = false ∧ x.toModel.unpack.isInf = false
  cases hx : x.toModel.unpack with
  | notANumber => rw [hx] at h; cases h
  | infinity s => rw [hx] at h; cases h
  | zero s => exact ⟨rfl, rfl⟩
  | finite s m e hm => exact ⟨rfl, rfl⟩

/-- The double is finite, one at least and `q` at most, up to its sign. -/
def UpTo (x : Float) (q : ℚ) : Prop :=
  ∃ s m e h, x.toModel.unpack = .finite s m e h ∧ 2 ^ 52 ≤ m ∧ m < 2 ^ 53 ∧ -52 ≤ e ∧ (m : ℚ) * 2 ^ e ≤ q

theorem UpTo.not_isInf {x : Float} {q : ℚ} (h : UpTo x q) : x.isInf = false := by
  obtain ⟨s, m, e, hpos, hx, -⟩ := h
  change x.toModel.unpack.isInf = false
  rw [hx]
  rfl

theorem UpTo.mono {x : Float} {q r : ℚ} (h : UpTo x q) (hle : q ≤ r) : UpTo x r := by
  obtain ⟨s, m, e, hpos, hx, hlow, hhigh, he, hq⟩ := h
  exact ⟨s, m, e, hpos, hx, hlow, hhigh, he, hq.trans hle⟩

theorem upTo_round {s : Sign} {m : Nat} {e : Int} (hm : 52 ≤ m.log2) (he : 0 ≤ m.log2 + e) {q : ℚ}
    (hq : m * 2 ^ e * (1 + epsilon) ≤ q) (hmax : q < 2 ^ 1024) :
    UpTo ⟨Float.Model.pack (roundWithAccuracy Format.binary64 s m e .exact)⟩ q := by
  obtain ⟨m', e', h, hround, hlow, hhigh, he', hle⟩ := roundWithAccuracy_long (s := s) hm he
  have hexponent : e' ≤ 971 := by
    have hpow : (2 : ℚ) ^ (52 + e') < 2 ^ (1024 : Int) :=
      calc (2 : ℚ) ^ (52 + e') = 2 ^ 52 * 2 ^ e' := by rw [zpow_add₀ two_ne_zero]; rfl
        _ ≤ m' * 2 ^ e' := mul_le_mul_of_nonneg_right (by exact_mod_cast hlow) (by positivity)
        _ ≤ q := hle.trans hq
        _ < 2 ^ (1024 : Int) := hmax
    have hlt := (zpow_lt_zpow_iff_right₀ one_lt_two).1 hpow
    omega
  obtain ⟨s', hunpack⟩ := unpack_pack (s := s) (h := h) hlow hhigh (by omega) hexponent
  exact ⟨s', m', e', h, hround ▸ hunpack, hlow, hhigh, he', hle.trans hq⟩

theorem UpTo.mul {x y : Float} {q r : ℚ} (hx : UpTo x q) (hy : UpTo y r)
    (hmax : q * r * (1 + epsilon) < 2 ^ 1024) : UpTo (x * y) (q * r * (1 + epsilon)) := by
  obtain ⟨s, m, e, h, hx, hm, -, he, hq⟩ := hx
  obtain ⟨s', m', e', h', hy, hm', -, he', hr⟩ := hy
  have hproduct : x * y = ⟨Float.Model.pack (roundWithAccuracy Format.binary64 (s * s') (m * m') (e + e') .exact)⟩ := by
    change (⟨Float.Model.pack (UnpackedFloat.mul Format.binary64 x.toModel.unpack y.toModel.unpack)⟩ : Float) = _
    rw [hx, hy]
    rfl
  have hlong : 104 ≤ (m * m').log2 := by
    have hmul := Nat.mul_le_mul hm hm'
    rw [← Nat.pow_add] at hmul
    exact (Nat.le_log2 (Nat.mul_pos h h').ne').2 hmul
  rw [hproduct]
  refine upTo_round (by omega) (by omega) (mul_le_mul_of_nonneg_right ?_ (by rw [epsilon]; positivity)) hmax
  calc ((m * m' : Nat) : ℚ) * 2 ^ (e + e') = (m * 2 ^ e) * (m' * 2 ^ e') := by
        rw [Nat.cast_mul, zpow_add₀ two_ne_zero]
        ring
    _ ≤ q * r := mul_le_mul hq hr (by positivity) (le_trans (by positivity) hq)

/-! ## Whole numbers and powers of ten -/

/-- The double is found to be finite and at most the number next to `n`. -/
def isUpTo (x : Float) (n : Nat) : Bool :=
  match x.toModel.unpack with
  | .finite _ m e _ => 2 ^ 52 ≤ m && m < 2 ^ 53 && -52 ≤ e && m * 2 ^ (e + 52).toNat ≤ n * (2 ^ 52 + 1)
  | _ => false

theorem upTo_of_isUpTo {x : Float} {n : Nat} (h : isUpTo x n = true) : UpTo x (n * (1 + epsilon)) := by
  unfold isUpTo at h
  split at h
  · rename_i s m e hpos hx
    simp only [Bool.and_eq_true, decide_eq_true_eq] at h
    obtain ⟨⟨⟨hlow, hhigh⟩, he⟩, hle⟩ := h
    refine ⟨s, m, e, hpos, hx, hlow, hhigh, he, ?_⟩
    obtain ⟨k, hk⟩ : ∃ k : Nat, e + 52 = k := ⟨(e + 52).toNat, by omega⟩
    rw [hk, Int.toNat_natCast] at hle
    have hcast : (m : ℚ) * 2 ^ k ≤ n * (2 ^ 52 + 1) := by exact_mod_cast hle
    obtain rfl : e = k - 52 := by omega
    rw [epsilon, zpow_sub₀ two_ne_zero, zpow_natCast]
    have hdiv : (m : ℚ) * 2 ^ k / 2 ^ 52 ≤ n * (2 ^ 52 + 1) / 2 ^ 52 := by gcongr
    calc (m : ℚ) * (2 ^ k / 2 ^ (52 : Int)) = m * 2 ^ k / 2 ^ 52 := by
          rw [mul_div_assoc]
          rfl
      _ ≤ n * (2 ^ 52 + 1) / 2 ^ 52 := hdiv
      _ = n * (1 + 1 / 2 ^ 52) := by ring
  · cases h

theorem upTo_ofScientific {n k : Nat} (hpos : 0 < n) (hk : k ≤ 2048)
    (hmax : (n : ℚ) * 10 ^ k * (1 + epsilon) < 2 ^ 1024) :
    UpTo ⟨Float.Model.ofScientific n k⟩ (n * 10 ^ k * (1 + epsilon)) := by
  have hround : Float.Model.ofScientific n k = Float.Model.pack
      (roundWithAccuracy Format.binary64 .positive (n <<< 53 * 10 ^ k) (-53) .exact) := by
    have hlarge : ¬(k : Int) > 2 ^ Format.binary64.exponentBits := by
      have hbits : (2 : Int) ^ Format.binary64.exponentBits = 2048 := by decide
      omega
    have hsmall : ¬(k : Int) < -(2 ^ Format.binary64.exponentBits + n.log2) := by
      have hbits : (2 : Int) ^ Format.binary64.exponentBits = 2048 := by decide
      omega
    rw [Float.Model.ofScientific, UnpackedFloat.ofScientific, dif_neg hpos.ne', if_neg hlarge, if_neg hsmall,
      if_pos (Int.natCast_nonneg k)]
    rfl
  have hlong : 2 ^ 53 ≤ n <<< 53 * 10 ^ k := by
    rw [Nat.shiftLeft_eq]
    exact Nat.le_trans (Nat.le_mul_of_pos_left _ hpos) (Nat.le_mul_of_pos_right _ (Nat.pow_pos (by decide)))
  have hlog : 53 ≤ (n <<< 53 * 10 ^ k).log2 :=
    (Nat.le_log2 (Nat.lt_of_lt_of_le (by decide) hlong).ne').2 hlong
  rw [hround]
  refine upTo_round (by omega) (by omega) (le_of_eq ?_) hmax
  rw [Nat.shiftLeft_eq]
  push_cast
  rw [show (2 : ℚ) ^ (-53 : Int) = 1 / 2 ^ 53 by norm_num [zpow_neg]]
  ring

theorem power_max : (10 : ℚ) ^ 308 * (1 + epsilon) < 2 ^ 1024 := by
  have hnat : 10 ^ 308 * (2 ^ 52 + 1) < 2 ^ 1024 * 2 ^ 52 := by decide +kernel
  have hcast : (10 : ℚ) ^ 308 * (2 ^ 52 + 1) < 2 ^ 1024 * 2 ^ 52 := by exact_mod_cast hnat
  calc (10 : ℚ) ^ 308 * (1 + epsilon) = 10 ^ 308 * (2 ^ 52 + 1) / 2 ^ 52 := by
        rw [epsilon, mul_div_assoc, add_div, div_self (by positivity)]
    _ < 2 ^ 1024 := (div_lt_iff₀ (by positivity)).2 hcast

theorem upTo_power {k : Nat} (h : k ≤ 308) : UpTo (Float.ofScientific 1 false k) (10 ^ k * (1 + epsilon)) := by
  by_cases hk : k ≤ 22
  · -- these powers come from a table of doubles
    have hall : ∀ k < 23, isUpTo (Float.ofScientific 1 false k) (10 ^ k) = true := by decide +kernel
    exact_mod_cast upTo_of_isUpTo (hall k (by omega))
  · have hle : (10 : ℚ) ^ k ≤ 10 ^ 308 := pow_le_pow_right₀ (by norm_num) h
    have hmax : ((1 : Nat) : ℚ) * 10 ^ k * (1 + epsilon) < 2 ^ 1024 := by
      rw [Nat.cast_one, one_mul]
      exact (mul_le_mul_of_nonneg_right hle (by rw [epsilon]; positivity)).trans_lt power_max
    have hupTo := upTo_ofScientific (by decide) (by omega) hmax
    rw [Nat.cast_one, one_mul] at hupTo
    rw [Float.ofScientific, dif_neg (by omega)]
    exact hupTo

theorem one_le_factor : 1 ≤ 1 + epsilon := by
  rw [epsilon]
  norm_num

theorem small_lt {n k : Nat} (hn : n < 2 ^ 64) (hk : k ≤ 5) : (n : ℚ) * (1 + epsilon) ^ k < 2 ^ 1024 := by
  have hfactor : 1 + epsilon ≤ 2 := by
    rw [epsilon]
    norm_num
  calc (n : ℚ) * (1 + epsilon) ^ k ≤ 2 ^ 64 * 2 ^ k :=
        mul_le_mul (by exact_mod_cast hn.le) (pow_le_pow_left₀ (zero_le_one.trans one_le_factor) hfactor k)
          (pow_nonneg (zero_le_one.trans one_le_factor) k) (by positivity)
    _ = 2 ^ (64 + k) := (pow_add ..).symm
    _ < 2 ^ 1024 := pow_lt_pow_right₀ one_lt_two (by omega)

theorem upTo_short {n : Nat} (hpos : 0 < n) (hn : n < 2 ^ 53) : UpTo n.toUInt64.toFloat (n * (1 + epsilon)) := by
  have hlog : n.log2 ≤ 52 := by
    have hlt := (Nat.log2_lt hpos.ne').2 hn
    omega
  obtain ⟨k, hk⟩ := Nat.exists_eq_add_of_le hlog
  -- the number is shifted to 53 bits, which are all kept
  have hround : n.toUInt64.toFloat =
      ⟨Float.Model.pack (roundWithAccuracy Format.binary64 .positive (n <<< k) (-k) .exact)⟩ := by
    have hvalue : n.toUInt64.toNat = n := Nat.mod_eq_of_lt (by omega)
    have htarget : Format.binary64.targetExponent (totalExponent n 0) = -k := by
      rw [targetExponent_eq, totalExponent]
      omega
    have hcompare : compare (n : Int) 0 = .gt := by
      rw [compare_gt_iff_gt]
      omega
    have hshift : (0 - -(k : Int)).toNat = k := by omega
    rw [UInt64.toFloat, Float.Model.ofUInt64, UnpackedFloat.ofUInt64, hvalue, UnpackedFloat.ofNat, UnpackedFloat.ofInt,
      UnpackedFloat.normalize, hcompare]
    dsimp only
    rw [UnpackedFloat.round, Int.toNat_natCast, htarget, decreaseExponent, hshift, Int.zero_sub]
  have hlong : 2 ^ 52 ≤ n <<< k := by
    rw [Nat.shiftLeft_eq, hk, Nat.pow_add]
    exact Nat.mul_le_mul_right _ (Nat.log2_self_le hpos.ne')
  have hlong : 52 ≤ (n <<< k).log2 := (Nat.le_log2 (Nat.lt_of_lt_of_le (by decide) hlong).ne').2 hlong
  have hmax : (n : ℚ) * (1 + epsilon) < 2 ^ 1024 := by
    have hshort : n < 2 ^ 64 := hn.trans (by decide)
    have h := small_lt hshort (k := 1) (by decide)
    rwa [pow_one] at h
  rw [hround]
  refine upTo_round hlong (by omega) (le_of_eq ?_) hmax
  rw [Nat.shiftLeft_eq, Nat.cast_mul, Nat.cast_pow, Nat.cast_ofNat, zpow_neg, zpow_natCast, mul_inv_cancel_right₀]
  positivity

theorem upTo_ofNat {n : Nat} (hpos : 0 < n) (hn : n < 2 ^ 64) : UpTo (Float.ofNat n) (n * (1 + epsilon) ^ 3) := by
  change UpTo (Float.ofScientific n false 0) _
  by_cases hshort : n < 2 ^ 53
  · -- the conversion, the power from the table and their product may each be rounded
    have hone : UpTo Float.exactlyRepresentablePowersOfTen[0] ((1 : Nat) * (1 + epsilon)) :=
      upTo_of_isUpTo (by decide +kernel)
    have hcube : (n : ℚ) * (1 + epsilon) * ((1 : Nat) * (1 + epsilon)) * (1 + epsilon) = n * (1 + epsilon) ^ 3 := by
      push_cast
      ring
    rw [Float.ofScientific, dif_pos ⟨hshort, by decide⟩, ← hcube]
    exact (upTo_short hpos hshort).mul hone (hcube ▸ small_lt hn (by decide))
  · have hzero : (n : ℚ) * 10 ^ 0 * (1 + epsilon) = n * (1 + epsilon) ^ 1 := by rw [pow_zero, mul_one, pow_one]
    have hupTo := upTo_ofScientific hpos (by decide : 0 ≤ 2048) (hzero ▸ small_lt hn (by decide))
    rw [Float.ofScientific, dif_neg fun h => hshort h.1]
    refine hupTo.mono ?_
    rw [hzero]
    exact mul_le_mul_of_nonneg_left (pow_le_pow_right₀ one_le_factor (by decide)) (Nat.cast_nonneg n)

end SpatialQuery.Decimal
