import Mathlib.Algebra.Order.Field.Power
import Mathlib.Data.Rat.Cast.Order
import Mathlib.Tactic.FieldSimp
import Mathlib.Tactic.Linarith
import Mathlib.Tactic.Positivity
import Mathlib.Tactic.Ring
import SpatialQuery.Decimal.Shortest

/-!
The decimals between the midpoints to the neighbours of a double are rounded to it. On a grid of multiples of a power of
ten the nearest of them is found, if there is one (`nearest_of_some`, `not_rounds_of_none`).
-/

namespace SpatialQuery.Decimal

/-! ## Rounding -/

/-- The number in the middle between this one and the next. -/
def Binary.middle (b : Binary) : ℚ :=
  (b.mantissa + 1 / 2) * 2 ^ b.exponent

def Scaled.value (s : Scaled) : ℚ :=
  s.digits * 10 ^ s.exponent

namespace Binary

def value (b : Binary) : ℚ :=
  b.mantissa * 2 ^ b.exponent

/-- The number in the middle between this one and the one below. -/
def low (b : Binary) : ℚ :=
  (b.mantissa - if b.nearBelow then 1 / 4 else 1 / 2) * 2 ^ b.exponent

/-- The decimals that are rounded to the number. The midpoints go to the even mantissa. -/
def Rounds (b : Binary) (q : ℚ) : Prop :=
  if b.mantissa % 2 = 0 then b.low ≤ q ∧ q ≤ b.middle else b.low < q ∧ q < b.middle

variable {b : Binary} {q r : ℚ}

theorem low_lt_value : b.low < b.value := by
  have hpow : (0 : ℚ) < 2 ^ b.exponent := by positivity
  refine mul_lt_mul_of_pos_right ?_ hpow
  split <;> linarith

theorem value_lt_middle : b.value < b.middle := by
  have hpow : (0 : ℚ) < 2 ^ b.exponent := by positivity
  exact mul_lt_mul_of_pos_right (by linarith) hpow

theorem low_pos (hpos : 0 < b.mantissa) : 0 < b.low := by
  have hpow : (0 : ℚ) < 2 ^ b.exponent := by positivity
  have hone : (1 : ℚ) ≤ b.mantissa := by exact_mod_cast hpos
  refine mul_pos ?_ hpow
  split <;> linarith

theorem Rounds.bounds (h : b.Rounds q) : b.low ≤ q ∧ q ≤ b.middle := by
  unfold Rounds at h
  split at h
  · exact h
  · exact ⟨h.1.le, h.2.le⟩

theorem rounds_of_lt (hlow : b.low < q) (hmiddle : q < b.middle) : b.Rounds q := by
  unfold Rounds
  split
  · exact ⟨hlow.le, hmiddle.le⟩
  · exact ⟨hlow, hmiddle⟩

theorem Rounds.pos (h : b.Rounds q) (hpos : 0 < b.mantissa) : 0 < q :=
  (low_pos hpos).trans_le h.bounds.1

/-- Between the number and a decimal that is rounded to it, all are. -/
theorem Rounds.up (h : b.Rounds q) (hr : q ≤ r) (hle : r ≤ b.value) : b.Rounds r := by
  have hmiddle := hle.trans_lt b.value_lt_middle
  unfold Rounds at h ⊢
  split at h
  · rw [if_pos ‹_›]
    exact ⟨h.1.trans hr, hmiddle.le⟩
  · rw [if_neg ‹_›]
    exact ⟨h.1.trans_le hr, hmiddle⟩

theorem Rounds.down (h : b.Rounds q) (hr : r ≤ q) (hle : b.value ≤ r) : b.Rounds r := by
  have hlow := b.low_lt_value.trans_le hle
  unfold Rounds at h ⊢
  split at h
  · rw [if_pos ‹_›]
    exact ⟨hlow.le, hr.trans h.2⟩
  · rw [if_neg ‹_›]
    exact ⟨hlow, hr.trans_lt h.2⟩

end Binary

/-! ## Multiples of a power of ten -/

theorem value_mono {m n : ℕ} (h : m ≤ n) (unit : Int) : Scaled.value ⟨m, unit⟩ ≤ Scaled.value ⟨n, unit⟩ :=
  mul_le_mul_of_nonneg_right (by exact_mod_cast h) (by positivity)

theorem value_strictMono {m n : ℕ} (h : m < n) (unit : Int) : Scaled.value ⟨m, unit⟩ < Scaled.value ⟨n, unit⟩ :=
  mul_lt_mul_of_pos_right (by exact_mod_cast h) (by positivity)

theorem value_succ (n : ℕ) (unit : Int) : Scaled.value ⟨n + 1, unit⟩ = Scaled.value ⟨n, unit⟩ + 10 ^ unit := by
  change ((n + 1 : ℕ) : ℚ) * 10 ^ unit = n * 10 ^ unit + 10 ^ unit
  push_cast
  ring

/-- Zeros at the end of the digits. -/
theorem value_shift (n k : ℕ) (unit : Int) : Scaled.value ⟨n * 10 ^ k, unit⟩ = Scaled.value ⟨n, unit + k⟩ := by
  change ((n * 10 ^ k : ℕ) : ℚ) * 10 ^ unit = n * 10 ^ (unit + k)
  rw [zpow_add₀ (by norm_num), zpow_natCast]
  push_cast
  ring

theorem value_one (unit : Int) : Scaled.value ⟨1, unit⟩ = 10 ^ unit := by
  rw [Scaled.value, Nat.cast_one, one_mul]

theorem value_ten (unit : Int) : Scaled.value ⟨10, unit - 1⟩ = 10 ^ unit := by
  rw [← value_one unit]
  have hshift := value_shift 1 1 (unit - 1)
  rwa [Nat.cast_one, sub_add_cancel] at hshift

theorem exists_finer (n : ℕ) {unit unit' : Int} (h : unit ≤ unit') :
    ∃ m : ℕ, Scaled.value ⟨n, unit'⟩ = Scaled.value ⟨m, unit⟩ := by
  obtain ⟨k, rfl⟩ : ∃ k : ℕ, unit' = unit + k := ⟨(unit' - unit).toNat, by omega⟩
  exact ⟨_, (value_shift n k unit).symm⟩

theorem Binary.Rounds.digits_pos {b : Binary} {s : Scaled} (h : b.Rounds s.value) (hpos : 0 < b.mantissa) :
    0 < s.digits := by
  have hvalue := h.pos hpos
  rw [Scaled.value] at hvalue
  exact_mod_cast (pos_iff_pos_of_mul_pos hvalue).2 (by positivity)

/-! ## One grid -/

theorem powerFactors_pos {base : Nat} (hbase : 0 < base) (e : Int) :
    0 < (powerFactors base e).1 ∧ 0 < (powerFactors base e).2 :=
  ⟨Nat.pow_pos hbase, Nat.pow_pos hbase⟩

theorem powerFactors_div {base : Nat} (hbase : 0 < base) (e : Int) :
    ((powerFactors base e).1 : ℚ) / (powerFactors base e).2 = base ^ e := by
  have hne : (base : ℚ) ≠ 0 := by exact_mod_cast hbase.ne'
  change ((base ^ e.toNat : Nat) : ℚ) / ((base ^ (-e).toNat : Nat) : ℚ) = _
  rw [Nat.cast_pow, Nat.cast_pow, ← zpow_natCast, ← zpow_natCast, ← zpow_sub₀ hne]
  congr 1
  omega

theorem powerFactors_eq_one (base : Nat) (e : Int) : (powerFactors base e).1 = 1 ∨ (powerFactors base e).2 = 1 := by
  unfold powerFactors
  rcases le_total e 0 with he | he
  · exact .inl (by rw [Int.toNat_of_nonpos he]; rfl)
  · exact .inr (by rw [Int.toNat_of_nonpos (Int.neg_nonpos_of_nonneg he)]; rfl)

/-- The unit and a quarter of the last binary digit are in the proportion of two whole numbers. -/
theorem exists_factor (e unit : Int) : ∃ c : ℚ, 0 < c ∧
    (((powerFactors 10 unit).1 * (powerFactors 2 e).2 : ℕ) : ℚ) = c * 10 ^ unit ∧
      (((powerFactors 2 e).1 * (powerFactors 10 unit).2 : ℕ) : ℚ) = c * 2 ^ e := by
  have hten := powerFactors_div (by decide : 0 < 10) unit
  have htwo := powerFactors_div (by decide : 0 < 2) e
  have hten₂ : (0 : ℚ) < (powerFactors 10 unit).2 := by exact_mod_cast (powerFactors_pos (by decide) unit).2
  have htwo₂ : (0 : ℚ) < (powerFactors 2 e).2 := by exact_mod_cast (powerFactors_pos (by decide) e).2
  push_cast at hten htwo
  refine ⟨(powerFactors 10 unit).2 * (powerFactors 2 e).2, mul_pos hten₂ htwo₂, ?_, ?_⟩
  · rw [← hten]
    push_cast
    field_simp
  · rw [← htwo]
    push_cast
    field_simp

variable {b : Binary} {unit : Int}

/-- The decimal with `n` units lies between the midpoints to the neighbours. -/
def Binary.reaches (b : Binary) (unit : Int) (n : Nat) : Bool :=
  let two := powerFactors 2 (b.exponent - 2)
  let ten := powerFactors 10 unit
  let step := ten.1 * two.2
  let scale := two.1 * ten.2
  let least := (4 * b.mantissa - if b.nearBelow then 1 else 2) * scale
  let greatest := (4 * b.mantissa + 2) * scale
  if b.mantissa % 2 == 0 then least ≤ n * step && n * step ≤ greatest
  else least < n * step && n * step < greatest

theorem reaches_iff (hpos : 0 < b.mantissa) (n : ℕ) :
    b.reaches unit n = true ↔ b.Rounds (Scaled.value ⟨n, unit⟩) := by
  obtain ⟨c, hc, hstep, hscale⟩ := exists_factor (b.exponent - 2) unit
  -- the bounds are whole numbers of quarters of the last binary place
  have hquarter : (2 : ℚ) ^ b.exponent = 4 * 2 ^ (b.exponent - 2) := by
    rw [zpow_sub₀ two_ne_zero]
    ring
  have hlow : (((4 * b.mantissa - if b.nearBelow then 1 else 2 : ℕ) : ℚ)) * 2 ^ (b.exponent - 2) = b.low := by
    rw [Binary.low, hquarter]
    split <;> push_cast [show 1 ≤ 4 * b.mantissa by omega, show 2 ≤ 4 * b.mantissa by omega] <;> ring
  have hmiddle : ((4 * b.mantissa + 2 : ℕ) : ℚ) * 2 ^ (b.exponent - 2) = b.middle := by
    rw [Binary.middle, hquarter]
    push_cast
    ring
  have hquarters : ∀ a : ℕ, ((a * ((powerFactors 2 (b.exponent - 2)).1 * (powerFactors 10 unit).2) : ℕ) : ℚ) =
      c * (a * 2 ^ (b.exponent - 2)) := by
    intro a
    rw [Nat.cast_mul, hscale, mul_left_comm]
  have hunits : ((n * ((powerFactors 10 unit).1 * (powerFactors 2 (b.exponent - 2)).2) : ℕ) : ℚ) =
      c * Scaled.value ⟨n, unit⟩ := by
    rw [Nat.cast_mul, hstep, mul_left_comm]
    rfl
  have hge : ∀ a : ℕ, a * ((powerFactors 2 (b.exponent - 2)).1 * (powerFactors 10 unit).2) ≤
      n * ((powerFactors 10 unit).1 * (powerFactors 2 (b.exponent - 2)).2) ↔
        (a : ℚ) * 2 ^ (b.exponent - 2) ≤ Scaled.value ⟨n, unit⟩ := by
    intro a
    rw [← @Nat.cast_le ℚ, hquarters, hunits, mul_le_mul_iff_right₀ hc]
  have hle : ∀ a : ℕ, n * ((powerFactors 10 unit).1 * (powerFactors 2 (b.exponent - 2)).2) ≤
      a * ((powerFactors 2 (b.exponent - 2)).1 * (powerFactors 10 unit).2) ↔
        Scaled.value ⟨n, unit⟩ ≤ (a : ℚ) * 2 ^ (b.exponent - 2) := by
    intro a
    rw [← @Nat.cast_le ℚ, hquarters, hunits, mul_le_mul_iff_right₀ hc]
  unfold Binary.reaches Binary.Rounds
  dsimp only
  rw [← hlow, ← hmiddle]
  by_cases heven : b.mantissa % 2 = 0
  · rw [if_pos (beq_iff_eq.2 heven), if_pos heven, Bool.and_eq_true, decide_eq_true_iff, decide_eq_true_iff, hge, hle]
  · rw [if_neg (by simpa using heven), if_neg heven, Bool.and_eq_true, decide_eq_true_iff, decide_eq_true_iff,
      ← not_le, ← not_le, ← not_le, ← not_le, hge, hle]

/-- What is taken from a grid: of the two multiples next to the number the nearer one that is rounded to it. -/
inductive Picked (b : Binary) (tieUp : Bool) (unit : Int) (below : ℕ) : Option Scaled → Prop
  | below : b.Rounds (Scaled.value ⟨below, unit⟩) →
      (b.Rounds (Scaled.value ⟨below + 1, unit⟩) →
        b.value - Scaled.value ⟨below, unit⟩ ≤ Scaled.value ⟨below + 1, unit⟩ - b.value ∧
          (tieUp = true → b.value - Scaled.value ⟨below, unit⟩ < Scaled.value ⟨below + 1, unit⟩ - b.value)) →
      Picked b tieUp unit below (some ⟨below, unit⟩)
  | above : b.Rounds (Scaled.value ⟨below + 1, unit⟩) →
      (b.Rounds (Scaled.value ⟨below, unit⟩) →
        Scaled.value ⟨below + 1, unit⟩ - b.value ≤ b.value - Scaled.value ⟨below, unit⟩) →
      Picked b tieUp unit below (some ⟨below + 1, unit⟩)
  | none : ¬b.Rounds (Scaled.value ⟨below, unit⟩) → ¬b.Rounds (Scaled.value ⟨below + 1, unit⟩) →
      Picked b tieUp unit below none

/-- The unit, in a measure in which the number is whole, too. -/
def Binary.step (b : Binary) (unit : Int) : ℕ :=
  (powerFactors 10 unit).1 * (powerFactors 2 (b.exponent - 2)).2

def Binary.measure (b : Binary) (unit : Int) : ℕ :=
  4 * b.mantissa * ((powerFactors 2 (b.exponent - 2)).1 * (powerFactors 10 unit).2)

theorem onGrid?_eq (b : Binary) (tieUp : Bool) (unit : Int) : b.onGrid? tieUp unit =
    let below := b.measure unit / b.step unit
    let rest := b.measure unit % b.step unit
    match b.reaches unit below && below != 0, b.reaches unit (below + 1) with
    | true, true =>
      if 2 * rest < b.step unit then some ⟨below, unit⟩
      else if b.step unit < 2 * rest then some ⟨below + 1, unit⟩
      else if tieUp || below % 2 == 1 then some ⟨below + 1, unit⟩
      else some ⟨below, unit⟩
    | true, false => some ⟨below, unit⟩
    | false, true => some ⟨below + 1, unit⟩
    | false, false => none :=
  rfl

/-- The distances of the number from the multiples next to it are in the proportion of whole numbers. -/
theorem exists_distances (b : Binary) (unit : Int) : ∃ c : ℚ, 0 < c ∧
    ((b.measure unit % b.step unit : ℕ) : ℚ) =
      c * (b.value - Scaled.value ⟨b.measure unit / b.step unit, unit⟩) ∧
    (b.step unit : ℚ) - (b.measure unit % b.step unit : ℕ) =
      c * (Scaled.value ⟨b.measure unit / b.step unit + 1, unit⟩ - b.value) := by
  obtain ⟨c, hc, hstep, hscale⟩ := exists_factor (b.exponent - 2) unit
  change (b.step unit : ℚ) = c * 10 ^ unit at hstep
  have hmeasure : (b.measure unit : ℚ) = c * b.value := by
    rw [Binary.measure, Nat.cast_mul, hscale, Binary.value, zpow_sub₀ two_ne_zero]
    push_cast
    ring
  have hunits : ∀ n : ℕ, ((n * b.step unit : ℕ) : ℚ) = c * Scaled.value ⟨n, unit⟩ := by
    intro n
    rw [Nat.cast_mul, hstep, Scaled.value]
    ring
  have hdiv := Nat.div_add_mod' (b.measure unit) (b.step unit)
  generalize b.measure unit / b.step unit = below at *
  generalize b.measure unit % b.step unit = rest at *
  refine ⟨c, hc, ?_, ?_⟩
  · rw [mul_sub, ← hmeasure, ← hunits, ← hdiv]
    push_cast
    ring
  · rw [mul_sub, ← hmeasure, ← hunits, ← hdiv]
    push_cast
    ring

/-- The remainder decides which of the two neighbours is nearer. -/
theorem remainder_iff {c x y : ℚ} (hc : 0 < c) {rest step : ℕ} (hx : (rest : ℚ) = c * x)
    (hy : (step : ℚ) - rest = c * y) : (2 * rest < step ↔ x < y) ∧ (step < 2 * rest ↔ y < x) := by
  constructor
  · rw [← mul_lt_mul_iff_right₀ hc, ← hx, ← hy, lt_sub_iff_add_lt, ← two_mul]
    exact_mod_cast Iff.rfl
  · rw [← mul_lt_mul_iff_right₀ hc, ← hx, ← hy, sub_lt_iff_lt_add, ← two_mul]
    exact_mod_cast Iff.rfl

theorem picked_onGrid? (hpos : 0 < b.mantissa) (tieUp : Bool) (unit : Int) :
    ∃ below : ℕ, Scaled.value ⟨below, unit⟩ ≤ b.value ∧ b.value < Scaled.value ⟨below + 1, unit⟩ ∧
      Picked b tieUp unit below (b.onGrid? tieUp unit) := by
  obtain ⟨c, hc, hdistance, hgap⟩ := exists_distances b unit
  have hstep : 0 < b.step unit := Nat.mul_pos (powerFactors_pos (by decide) _).1 (powerFactors_pos (by decide) _).2
  have hrest := Nat.mod_lt (b.measure unit) hstep
  rw [onGrid?_eq]
  dsimp only
  generalize b.measure unit / b.step unit = below at *
  generalize b.measure unit % b.step unit = rest at *
  have hbelow : (b.reaches unit below && below != 0) = true ↔ b.Rounds (Scaled.value ⟨below, unit⟩) := by
    rw [Bool.and_eq_true, reaches_iff hpos, bne_iff_ne, and_iff_left_iff_imp]
    exact fun h => (h.digits_pos hpos).ne'
  have habove := @reaches_iff b unit hpos (below + 1)
  obtain ⟨hnear, hfar⟩ := remainder_iff hc hdistance hgap
  refine ⟨below, ?_, ?_, ?_⟩
  · have hnonneg : (0 : ℚ) ≤ rest := Nat.cast_nonneg rest
    rw [hdistance] at hnonneg
    exact sub_nonneg.1 ((mul_nonneg_iff_of_pos_left hc).1 hnonneg)
  · have hlt : (0 : ℚ) < b.step unit - rest := sub_pos.2 (by exact_mod_cast hrest)
    rw [hgap] at hlt
    exact sub_pos.1 ((mul_pos_iff_of_pos_left hc).1 hlt)
  · -- both neighbours are rounded to the number, or one of them, or none
    split
    · rename_i hb ha
      split
      · rename_i hlt
        exact .below (hbelow.1 hb) fun _ => ⟨(hnear.1 hlt).le, fun _ => hnear.1 hlt⟩
      · rename_i hnot
        have hless := not_lt.1 (mt hnear.2 hnot)
        split
        · exact .above (habove.1 ha) fun _ => hless
        · rename_i hnot'
          split
          · exact .above (habove.1 ha) fun _ => hless
          · rename_i htie
            rw [Bool.or_eq_true, not_or] at htie
            exact .below (hbelow.1 hb) fun _ => ⟨not_lt.1 (mt hfar.2 hnot'), fun h => absurd h htie.1⟩
    · rename_i hb ha
      exact .below (hbelow.1 hb) fun h => absurd (habove.2 h) (by simp [ha])
    · rename_i hb ha
      exact .above (habove.1 ha) fun h => absurd (hbelow.2 h) (by simp [hb])
    · rename_i hb ha
      exact .none (fun h => absurd (hbelow.2 h) (by simp [hb])) fun h => absurd (habove.2 h) (by simp [ha])

/-! ## What is found on a grid -/

/-- No multiple of the unit is rounded to the number. -/
theorem not_rounds_of_none (hpos : 0 < b.mantissa) {tieUp : Bool} (h : b.onGrid? tieUp unit = none) (n : ℕ) :
    ¬b.Rounds (Scaled.value ⟨n, unit⟩) := by
  obtain ⟨below, hle, hlt, hpicked⟩ := picked_onGrid? hpos tieUp unit
  rw [h] at hpicked
  cases hpicked with
  | none hbelow habove =>
    intro hn
    rcases Nat.lt_or_ge below n with hmore | hless
    · exact habove (hn.down (value_mono hmore unit) hlt.le)
    · exact hbelow (hn.up (value_mono hless unit) hle)

theorem rounds_of_some (hpos : 0 < b.mantissa) {tieUp : Bool} {s : Scaled} (h : b.onGrid? tieUp unit = some s) :
    s.exponent = unit ∧ b.Rounds s.value := by
  obtain ⟨below, -, -, hpicked⟩ := picked_onGrid? hpos tieUp unit
  rw [h] at hpicked
  cases hpicked with
  | below hbelow _ => exact ⟨rfl, hbelow⟩
  | above habove _ => exact ⟨rfl, habove⟩

/-- The nearest multiple of the unit is found. -/
theorem nearest_of_some (hpos : 0 < b.mantissa) {tieUp : Bool} {s : Scaled} (h : b.onGrid? tieUp unit = some s)
    {n : ℕ} (hn : b.Rounds (Scaled.value ⟨n, unit⟩)) :
    |s.value - b.value| ≤ |Scaled.value ⟨n, unit⟩ - b.value| ∧
      (tieUp = true → |s.value - b.value| = |Scaled.value ⟨n, unit⟩ - b.value| → n ≤ s.digits) := by
  obtain ⟨below, hle, hlt, hpicked⟩ := picked_onGrid? hpos tieUp unit
  rw [h] at hpicked
  -- decimals up to the picked one lie below the number, and those behind it above
  have hless : ∀ m ≤ below, |Scaled.value ⟨m, unit⟩ - b.value| = b.value - Scaled.value ⟨m, unit⟩ := fun m hm => by
    rw [abs_sub_comm]
    exact abs_of_nonneg (sub_nonneg.2 ((value_mono hm unit).trans hle))
  have hmore : ∀ m, below + 1 ≤ m → |Scaled.value ⟨m, unit⟩ - b.value| = Scaled.value ⟨m, unit⟩ - b.value :=
    fun m hm => abs_of_nonneg (sub_nonneg.2 (hlt.le.trans (value_mono hm unit)))
  cases hpicked with
  | below hbelow hnear =>
    rw [hless below le_rfl]
    rcases Nat.lt_or_ge below n with hn' | hn'
    · obtain ⟨hcloser, hstrict⟩ := hnear (hn.down (value_mono hn' unit) hlt.le)
      have hmono := value_mono hn' unit
      rw [hmore n hn']
      refine ⟨by linarith, fun htie heq => ?_⟩
      have hstrict := hstrict htie
      linarith
    · rw [hless n hn']
      exact ⟨sub_le_sub_left (value_mono hn' unit) _, fun _ _ => hn'⟩
  | above habove hnear =>
    rw [hmore _ le_rfl]
    rcases Nat.lt_or_ge below n with hn' | hn'
    · rw [hmore n hn']
      refine ⟨sub_le_sub_right (value_mono hn' unit) _, fun _ heq => not_lt.1 fun hgreater => ?_⟩
      have hmono := value_strictMono hgreater unit
      linarith
    · have hcloser := hnear (hn.up (value_mono hn' unit) hle)
      have hmono := value_mono hn' unit
      rw [hless n hn']
      exact ⟨by linarith, fun _ _ => hn'.trans (Nat.le_succ below)⟩

/-- A grid that is finer than the distance between the midpoints has a multiple between them. -/
theorem isSome_of_width (hpos : 0 < b.mantissa) (tieUp : Bool) (h : 10 ^ unit < b.middle - b.low) :
    (b.onGrid? tieUp unit).isSome = true := by
  by_contra hnone
  obtain ⟨below, hle, hlt, hpicked⟩ := picked_onGrid? hpos tieUp unit
  rw [Option.not_isSome_iff_eq_none.1 hnone] at hpicked
  cases hpicked with
  | none hbelow habove =>
    have hlow : Scaled.value ⟨below, unit⟩ ≤ b.low := not_lt.1 fun hgreater =>
      hbelow (Binary.rounds_of_lt hgreater (hle.trans_lt b.value_lt_middle))
    have hmiddle : b.middle ≤ Scaled.value ⟨below + 1, unit⟩ := not_lt.1 fun hless =>
      habove (Binary.rounds_of_lt (b.low_lt_value.trans hlt) hless)
    rw [value_succ] at hmiddle
    linarith

end SpatialQuery.Decimal
