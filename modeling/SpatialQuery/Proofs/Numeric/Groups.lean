import Mathlib.Algebra.Order.Field.Power
import Mathlib.Data.Rat.Floor
import Mathlib.Tactic.Linarith
import Mathlib.Tactic.Positivity
import Mathlib.Tactic.Ring
import SpatialQuery.Numeric

/-!
Groups of four digits and the number they stand for. A number has one row of groups without zeros at its
ends (`Expands.unique`). The groups up to a place are the number cut off there (`number_groupsFrom`).
-/

namespace SpatialQuery.Numeric

/-- The number that groups stand for, the first of which counts this power of 10000. -/
def groupsValue : Int → List Int → ℚ
  | _, [] => 0
  | weight, g :: gs => g * 10000 ^ weight + groupsValue (weight - 1) gs

/-- Every group has four digits. -/
def AreGroups (gs : List Int) : Prop :=
  ∀ g ∈ gs, 0 ≤ g ∧ g ≤ 9999

theorem groupsValue_add (weight k : Int) (gs : List Int) :
    groupsValue (weight + k) gs = groupsValue weight gs * 10000 ^ k := by
  induction gs generalizing weight with
  | nil => exact (zero_mul _).symm
  | cons g gs ih =>
    have hrest := ih (weight - 1)
    rw [show weight - 1 + k = weight + k - 1 by ring] at hrest
    rw [groupsValue, groupsValue, hrest, zpow_add₀ (by norm_num)]
    ring

theorem groupsValue_bounds {gs : List Int} (h : AreGroups gs) (weight : Int) :
    0 ≤ groupsValue weight gs ∧ groupsValue weight gs < 10000 ^ (weight + 1) := by
  induction gs generalizing weight with
  | nil => exact ⟨le_refl _, by positivity⟩
  | cons g gs ih =>
    obtain ⟨⟨hg, hg'⟩, hgs⟩ := List.forall_mem_cons.1 h
    obtain ⟨hnonneg, hlt⟩ := ih hgs (weight - 1)
    have hg : (0 : ℚ) ≤ g := by exact_mod_cast hg
    have hg' : (g : ℚ) ≤ 9999 := by exact_mod_cast hg'
    have hpos : (0 : ℚ) < 10000 ^ weight := by positivity
    rw [sub_add_cancel] at hlt
    rw [groupsValue, zpow_add_one₀ (by norm_num)]
    exact ⟨by positivity, by nlinarith⟩

/-! ## Zeros at the ends -/

theorem groupsValue_zero_cons (weight : Int) (gs : List Int) :
    groupsValue weight (0 :: gs) = groupsValue (weight - 1) gs := by
  rw [groupsValue, Int.cast_zero, zero_mul, zero_add]

theorem groupsValue_zeros (weight : Int) (n : Nat) : groupsValue weight (List.replicate n 0) = 0 := by
  induction n generalizing weight with
  | zero => rfl
  | succ n ih => rw [List.replicate_succ, groupsValue_zero_cons, ih]

theorem groupsValue_append_zeros (weight : Int) (gs : List Int) (n : Nat) :
    groupsValue weight (gs ++ List.replicate n 0) = groupsValue weight gs := by
  induction gs generalizing weight with
  | nil => exact groupsValue_zeros weight n
  | cons g gs ih => rw [List.cons_append, groupsValue, groupsValue, ih]

theorem groupsValue_eq_zero {gs : List Int} (h : AreGroups gs) {weight : Int} (hvalue : groupsValue weight gs = 0) :
    ∀ g ∈ gs, g = 0 := by
  induction gs generalizing weight with
  | nil => exact List.forall_mem_nil _
  | cons g gs ih =>
    obtain ⟨⟨hg, -⟩, hgs⟩ := List.forall_mem_cons.1 h
    have hpos : (0 : ℚ) < 10000 ^ weight := by positivity
    have hg : (0 : ℚ) ≤ g := by exact_mod_cast hg
    have hnonneg := (groupsValue_bounds hgs (weight - 1)).1
    have hproduct : 0 ≤ (g : ℚ) * 10000 ^ weight := by positivity
    rw [groupsValue] at hvalue
    have hfirst : (g : ℚ) * 10000 ^ weight = 0 := by linarith
    have hrest : groupsValue (weight - 1) gs = 0 := by linarith
    have hzero : (g : ℚ) = 0 := (mul_eq_zero.1 hfirst).resolve_right hpos.ne'
    exact List.forall_mem_cons.2 ⟨by exact_mod_cast hzero, ih hgs hrest⟩

theorem groupsValue_eq_zero_iff {gs : List Int} (h : AreGroups gs) (weight : Int) :
    groupsValue weight gs = 0 ↔ ∀ g ∈ gs, g = 0 := by
  refine ⟨groupsValue_eq_zero h, fun hzero => ?_⟩
  rw [List.eq_replicate_iff.2 ⟨rfl, hzero⟩, groupsValue_zeros]

/-! ## The groups of a number -/

/-- The number is written with these groups, the first of which counts the power `weight` of 10000. No group
at either end is zero, and zero has no groups at all. -/
structure Expands (x : ℚ) (weight : Int) (groups : List Int) : Prop where
  group : AreGroups groups
  value : groupsValue weight groups = x
  first : groups.head? ≠ some 0
  last : groups.getLast? ≠ some 0
  zero : groups = [] → weight = 0

theorem eq_nil_of_value_zero {gs : List Int} (h : AreGroups gs) {weight : Int}
    (hlast : gs.getLast? ≠ some 0) (hvalue : groupsValue weight gs = 0) : gs = [] := by
  by_contra hne
  have hzero := groupsValue_eq_zero h hvalue _ (List.getLast_mem hne)
  exact hlast (by rw [List.getLast?_eq_some_getLast hne, hzero])

/-- The first group is the number cut off behind it. -/
theorem floor_groupsValue_cons {g : Int} {gs : List Int} (h : AreGroups gs) :
    ⌊groupsValue 0 (g :: gs)⌋ = g := by
  obtain ⟨hnonneg, hlt⟩ := groupsValue_bounds h (-1)
  rw [groupsValue, zpow_zero, mul_one, Int.floor_eq_iff]
  norm_num at hlt
  exact ⟨by simpa using hnonneg, by simpa using hlt⟩

/-- With the same weight, only zeros behind the last group may differ. -/
theorem groups_unique {gs gs' : List Int} (h : AreGroups gs) (h' : AreGroups gs')
    (hlast : gs.getLast? ≠ some 0) (hlast' : gs'.getLast? ≠ some 0) {weight : Int}
    (hvalue : groupsValue weight gs = groupsValue weight gs') : gs = gs' := by
  induction gs generalizing gs' weight with
  | nil => exact (eq_nil_of_value_zero h' hlast' hvalue.symm).symm
  | cons g gs ih =>
    cases gs' with
    | nil => exact eq_nil_of_value_zero h hlast hvalue
    | cons g' gs' =>
      obtain ⟨-, hgs⟩ := List.forall_mem_cons.1 h
      obtain ⟨-, hgs'⟩ := List.forall_mem_cons.1 h'
      have hshift : groupsValue 0 (g :: gs) = groupsValue 0 (g' :: gs') := by
        rw [← add_neg_cancel weight, groupsValue_add, groupsValue_add, hvalue]
      obtain rfl : g = g' := by
        rw [← floor_groupsValue_cons (g := g) hgs, hshift, floor_groupsValue_cons hgs']
      have hrest : groupsValue (weight - 1) gs = groupsValue (weight - 1) gs' := by
        rw [groupsValue, groupsValue] at hvalue
        exact add_left_cancel hvalue
      have hne : ∀ {ds : List Int}, (g :: ds).getLast? ≠ some 0 → ds.getLast? ≠ some 0 := by
        intro ds hds hzero
        rw [List.getLast?_cons, hzero] at hds
        exact hds rfl
      rw [ih hgs hgs' (hne hlast) (hne hlast') hrest]

/-- The weight of a number is the greatest power of 10000 that is not above it. -/
theorem Expands.weight_bounds {x : ℚ} {weight : Int} {groups : List Int} (h : Expands x weight groups)
    (hne : groups ≠ []) : 10000 ^ weight ≤ x ∧ x < 10000 ^ (weight + 1) := by
  obtain ⟨g, gs, rfl⟩ := List.exists_cons_of_ne_nil hne
  have hbounds := groupsValue_bounds h.group weight
  rw [h.value] at hbounds
  refine ⟨?_, hbounds.2⟩
  obtain ⟨⟨hg, -⟩, hgs⟩ := List.forall_mem_cons.1 h.group
  have hfirst : g ≠ 0 := fun hzero => h.first (congrArg some hzero)
  have hone : (1 : ℚ) ≤ g := by exact_mod_cast (show 1 ≤ g by omega)
  have hnonneg := (groupsValue_bounds hgs (weight - 1)).1
  have hpos : (0 : ℚ) < 10000 ^ weight := by positivity
  rw [← h.value, groupsValue]
  nlinarith

/-- A number has one weight and one row of groups. -/
theorem Expands.unique {x : ℚ} {weight weight' : Int} {groups groups' : List Int}
    (h : Expands x weight groups) (h' : Expands x weight' groups') : weight = weight' ∧ groups = groups' := by
  have hempty : groups = [] ↔ groups' = [] := by
    have hzero : ∀ {w : Int} {gs : List Int}, Expands x w gs → (gs = [] ↔ x = 0) := by
      intro w gs hgs
      refine ⟨?_, fun hx => eq_nil_of_value_zero hgs.group hgs.last (hgs.value.trans hx)⟩
      rintro rfl
      exact hgs.value.symm
    rw [hzero h, hzero h']
  by_cases hne : groups = []
  · rw [h.zero hne, h'.zero (hempty.1 hne), hne, hempty.1 hne]
    exact ⟨rfl, rfl⟩
  · obtain ⟨hle, hlt⟩ := h.weight_bounds hne
    obtain ⟨hle', hlt'⟩ := h'.weight_bounds (mt hempty.2 hne)
    -- the size of the number fixes the weight, and with one weight the groups agree from the first on
    have h₁ := (zpow_lt_zpow_iff_right₀ (by norm_num : (1 : ℚ) < 10000)).1 (hle.trans_lt hlt')
    have h₂ := (zpow_lt_zpow_iff_right₀ (by norm_num : (1 : ℚ) < 10000)).1 (hle'.trans_lt hlt)
    obtain rfl : weight = weight' := by omega
    exact ⟨rfl, groups_unique h.group h'.group h.last h'.last (h.value.trans h'.value.symm)⟩

/-! ## Groups in a row -/

/-- The whole number that groups stand for. -/
def groupsNumber (gs : List Int) : Int :=
  gs.foldl (fun n g => 10000 * n + g) 0

theorem groupsNumber_concat (gs : List Int) (g : Int) :
    groupsNumber (gs ++ [g]) = 10000 * groupsNumber gs + g := by
  rw [groupsNumber, List.foldl_append]
  rfl

/-! ## Numbers cut off -/

theorem floor_eq_zero {gs : List Int} (h : AreGroups gs) {weight : Int} (hneg : weight < 0) :
    ⌊groupsValue weight gs⌋ = 0 := by
  obtain ⟨hnonneg, hlt⟩ := groupsValue_bounds h weight
  have hone : (10000 : ℚ) ^ (weight + 1) ≤ 1 := zpow_le_one_of_nonpos₀ (by norm_num) (by omega)
  rw [Int.floor_eq_zero_iff]
  exact ⟨hnonneg, hlt.trans_le hone⟩

/-- One more group behind the point of cutting. -/
theorem floor_groupsValue {gs : List Int} (h : AreGroups gs) (place : Int) :
    ⌊groupsValue place gs⌋ =
      10000 * ⌊groupsValue (place - 1) gs⌋ + if place < 0 then 0 else gs.getD place.toNat 0 := by
  induction gs generalizing place with
  | nil => simp [groupsValue]
  | cons g gs ih =>
    obtain ⟨-, hgs⟩ := List.forall_mem_cons.1 h
    by_cases hneg : place < 0
    · rw [if_pos hneg, floor_eq_zero h hneg, floor_eq_zero h (by omega)]
      rfl
    rw [if_neg hneg]
    by_cases hzero : place = 0
    · subst hzero
      rw [floor_groupsValue_cons hgs, floor_eq_zero h (by omega), mul_zero, zero_add]
      rfl
    -- the first group stands in front of the place, and its share is whole
    obtain ⟨n, rfl⟩ : ∃ n : Nat, place = n + 1 := ⟨place.toNat - 1, by omega⟩
    have hrest := ih hgs n
    rw [if_neg (by omega), Int.toNat_natCast] at hrest
    have hwhole : ∀ k : Nat, ⌊groupsValue k (g :: gs)⌋ = g * 10000 ^ k + ⌊groupsValue (k - 1) gs⌋ := by
      intro k
      rw [groupsValue, ← Int.floor_intCast_add]
      push_cast
      rw [zpow_natCast]
    have hnext := hwhole (n + 1)
    push_cast at hnext
    rw [hnext, add_sub_cancel_right, hwhole n, hrest, pow_succ, show ((n : Int) + 1).toNat = n + 1 by omega,
      List.getD_cons_succ]
    ring

/-- The groups from a place in front of the first one on. -/
theorem number_groupsFrom {f : Fields} (h : AreGroups f.groups) {start : Int} (hstart : start ≤ 0) (count : Nat) :
    groupsNumber (f.groupsFrom start count) = ⌊groupsValue (start + count - 1) f.groups⌋ := by
  induction count with
  | zero =>
    rw [floor_eq_zero h (by push_cast; omega)]
    rfl
  | succ count ih =>
    have hlast : f.groupsFrom start (count + 1) = f.groupsFrom start count ++ [f.group (start + count)] := by
      rw [Fields.groupsFrom, List.range_succ, List.map_append]
      rfl
    have hplace : start + ((count + 1 : Nat) : Int) - 1 = start + count := by
      push_cast
      ring
    rw [hlast, groupsNumber_concat, ih, hplace, floor_groupsValue h (start + count)]
    rfl

end SpatialQuery.Numeric
