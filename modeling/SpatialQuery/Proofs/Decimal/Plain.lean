import SpatialQuery.Proofs.Decimal.Shortest

/-!
Numbers written with no more digits than they need. There is one such text for a number (`IsPlainDecimal.unique`), and numbers
are written so (`isPlainDecimal_ofNat`, `isPlainDecimal_positional`).
-/

namespace SpatialQuery.Decimal

open Numeric (number IsDigits)

/-- The point, if digits follow it. -/
def pointed : List Char → List Char
  | [] => []
  | ds => '.' :: ds

/-- The text writes the number: no zero stands in front, except for the one in front of the point, and none at the end
behind the point. -/
def IsPlainDecimal (cs : List Char) (q : ℚ) : Prop :=
  ∃ whole fraction, cs = whole ++ pointed fraction ∧ IsDigits whole ∧ IsDigits fraction ∧ whole ≠ [] ∧
    (whole.head? = some '0' → whole = ['0']) ∧ fraction.getLast? ≠ some '0' ∧
      q * 10 ^ fraction.length = number (whole ++ fraction)

/-! ## One text for a number -/

/-- Digits that do not end in zero are no multiple of ten. -/
theorem number_mod_ten {cs : List Char} (h : IsDigits cs) (hne : cs ≠ []) (hlast : cs.getLast? ≠ some '0') :
    number cs % 10 ≠ 0 := by
  intro hmod
  have hsplit := List.dropLast_concat_getLast hne
  have hlastDigit : (cs.getLast hne).isDigit = true := h _ (List.getLast_mem hne)
  have hsingle : IsDigits [cs.getLast hne] := List.forall_mem_singleton.2 hlastDigit
  have hremainder := (Numeric.number_split cs.dropLast hsingle).2
  rw [hsplit, List.length_singleton, Nat.pow_one, hmod, Numeric.number_cons, List.length_nil] at hremainder
  have hzero : Text.digitValue (cs.getLast hne) = Text.digitValue '0' := by
    change _ = Text.digitValue _ * 1 + 0 at hremainder
    rw [Numeric.digitValue_zero]
    omega
  exact hlast (by rw [List.getLast?_eq_getLast_of_ne_nil hne, Numeric.digitValue_injective hlastDigit rfl hzero])

theorem length_le_of_number {whole fraction whole' fraction' : List Char} (hdigits : IsDigits fraction)
    (hlast : fraction.getLast? ≠ some '0')
    (h : number (whole ++ fraction) * 10 ^ fraction'.length = number (whole' ++ fraction') * 10 ^ fraction.length) :
    fraction.length ≤ fraction'.length := by
  by_contra hlt
  obtain ⟨k, hk⟩ : ∃ k, fraction.length = fraction'.length + (k + 1) :=
    ⟨fraction.length - fraction'.length - 1, by omega⟩
  have hne : fraction ≠ [] := List.length_pos_iff.1 (by omega)
  rw [hk, Nat.pow_add, Nat.mul_left_comm, Nat.mul_comm] at h
  have hmultiple := Nat.eq_of_mul_eq_mul_left (Nat.pow_pos (by decide)) h
  have hmod := number_mod_ten hdigits hne hlast
  rw [Numeric.number_append, Nat.pow_succ, ← Nat.mul_assoc] at hmultiple
  rw [hk, ← Nat.add_assoc, Nat.pow_succ, ← Nat.mul_assoc] at hmultiple
  omega

/-- Digits without a needless zero in front are determined by their number. -/
theorem whole_unique {whole whole' : List Char} (hwhole : IsDigits whole) (hwhole' : IsDigits whole')
    (hne : whole ≠ []) (hne' : whole' ≠ []) (hhead : whole.head? = some '0' → whole = ['0'])
    (hhead' : whole'.head? = some '0' → whole' = ['0']) (h : number whole = number whole') : whole = whole' := by
  have hzero : number ['0'] = 0 := Numeric.number_zeros 1
  have hpos : ∀ {cs : List Char}, IsDigits cs → cs ≠ [] → cs.head? ≠ some '0' → 0 < number cs :=
    fun hcs hne hhead => Nat.lt_of_lt_of_le (Nat.pow_pos (by decide)) (Numeric.le_number hcs hne hhead)
  by_cases hz : whole.head? = some '0' <;> by_cases hz' : whole'.head? = some '0'
  · rw [hhead hz, hhead' hz']
  · have hlt := hpos hwhole' hne' hz'
    rw [← h, hhead hz, hzero] at hlt
    exact absurd hlt (Nat.lt_irrefl 0)
  · have hlt := hpos hwhole hne hz
    rw [h, hhead' hz', hzero] at hlt
    exact absurd hlt (Nat.lt_irrefl 0)
  · rw [← Numeric.ofNat_number hwhole hne hz, h, Numeric.ofNat_number hwhole' hne' hz']

theorem IsPlainDecimal.unique {cs ds : List Char} {q : ℚ} (h : IsPlainDecimal cs q) (h' : IsPlainDecimal ds q) :
    cs = ds := by
  obtain ⟨whole, fraction, rfl, hwhole, hfraction, hne, hhead, hlast, hq⟩ := h
  obtain ⟨whole', fraction', rfl, hwhole', hfraction', hne', hhead', hlast', hq'⟩ := h'
  have hcross : number (whole ++ fraction) * 10 ^ fraction'.length =
      number (whole' ++ fraction') * 10 ^ fraction.length := by
    have heq : (number (whole ++ fraction) : ℚ) * 10 ^ fraction'.length =
        number (whole' ++ fraction') * 10 ^ fraction.length := by
      rw [← hq, ← hq']
      ring
    exact_mod_cast heq
  have hlength : fraction.length = fraction'.length :=
    Nat.le_antisymm (length_le_of_number hfraction hlast hcross) (length_le_of_number hfraction' hlast' hcross.symm)
  rw [hlength] at hcross
  have hnumber := Nat.eq_of_mul_eq_mul_right (Nat.pow_pos (by decide)) hcross
  obtain ⟨hdiv, hmod⟩ := Numeric.number_split whole hfraction
  obtain ⟨hdiv', hmod'⟩ := Numeric.number_split whole' hfraction'
  rw [hnumber, hlength] at hdiv hmod
  rw [whole_unique hwhole hwhole' hne hne' hhead hhead' (hdiv.symm.trans hdiv'),
    Numeric.eq_of_number hfraction hfraction' hlength (hmod.symm.trans hmod')]

/-! ## How numbers are written -/

theorem ofNat_head {n : ℕ} (h : (Text.ofNat n).head? = some '0') : Text.ofNat n = ['0'] := by
  obtain rfl : n = 0 := Nat.eq_zero_of_not_pos fun hpos => Text.head?_ofNat hpos h
  rfl

theorem isPlainDecimal_ofNat (n : ℕ) : IsPlainDecimal (Text.ofNat n) n :=
  ⟨Text.ofNat n, [], (List.append_nil _).symm, Text.isDigit_ofNat, List.forall_mem_nil _, Nat.toDigits_ne_nil, ofNat_head,
    by simp, by rw [List.append_nil, Numeric.number_ofNat, List.length_nil, pow_zero, mul_one]⟩

/-- Digits with zeros behind them. -/
theorem isPlainDecimal_zeros {ds : List Char} (hdigits : IsDigits ds) (hne : ds ≠ []) (hhead : ds.head? ≠ some '0')
    (k : ℕ) : IsPlainDecimal (ds ++ List.replicate k '0') (number ds * 10 ^ (k : ℤ)) := by
  refine ⟨ds ++ List.replicate k '0', [], (List.append_nil _).symm, List.forall_mem_append.2
    ⟨hdigits, Numeric.isDigits_zeros k⟩, List.forall_mem_nil _, List.append_ne_nil_of_left_ne_nil hne _, fun hzero => ?_,
    by simp, ?_⟩
  · rw [List.head?_append_of_ne_nil ds hne] at hzero
    exact absurd hzero hhead
  · rw [List.append_nil, Numeric.number_append, Numeric.number_zeros, List.length_replicate]
    simp

/-- Digits with a point between them. -/
theorem isPlainDecimal_pointed {whole fraction : List Char} (hwhole : IsDigits whole) (hfraction : IsDigits fraction)
    (hne : whole ≠ []) (hhead : whole.head? = some '0' → whole = ['0']) (hpoint : fraction ≠ [])
    (hlast : fraction.getLast? ≠ some '0') :
    IsPlainDecimal (whole ++ '.' :: fraction) (number (whole ++ fraction) * 10 ^ (-(fraction.length : ℤ))) := by
  refine ⟨whole, fraction, ?_, hwhole, hfraction, hne, hhead, hlast, ?_⟩
  · obtain ⟨c, cs, rfl⟩ := List.exists_cons_of_ne_nil hpoint
    rfl
  · rw [zpow_neg, zpow_natCast, inv_mul_cancel_right₀ (by positivity)]

theorem isPlainDecimal_positional {s : Scaled} (hlast : (Text.ofNat s.digits).getLast? ≠ some '0') :
    IsPlainDecimal s.positional s.value := by
  have hpos : 0 < s.digits := Nat.pos_of_ne_zero fun hzero => hlast (by rw [hzero]; rfl)
  have hdigits : IsDigits (Text.ofNat s.digits) := Text.isDigit_ofNat
  have hne : Text.ofNat s.digits ≠ [] := Nat.toDigits_ne_nil
  have hhead := Text.head?_ofNat hpos
  have hnumber := Numeric.number_ofNat s.digits
  unfold Scaled.positional Scaled.value
  dsimp only
  generalize Text.ofNat s.digits = ds at *
  rw [← hnumber]
  split
  · rename_i he
    obtain ⟨k, hk⟩ : ∃ k : ℕ, s.exponent = k := ⟨s.exponent.toNat, by omega⟩
    rw [hk, Int.toNat_natCast]
    exact isPlainDecimal_zeros hdigits hne hhead k
  · rename_i he
    obtain ⟨k, hk⟩ : ∃ k : ℕ, s.exponent = -k := ⟨s.exponent.natAbs, by omega⟩
    rw [hk, neg_neg, Int.toNat_natCast]
    split
    · -- the point stands among the digits
      rename_i hk'
      have hfront : ds.take (ds.length - k) ≠ [] := by
        rw [ne_eq, List.take_eq_nil_iff, not_or]
        exact ⟨by omega, hne⟩
      have hlength : (ds.drop (ds.length - k)).length = k := by
        rw [List.length_drop]
        omega
      have hsplit := List.take_append_drop (ds.length - k) ds
      generalize ds.take (ds.length - k) = front at *
      generalize ds.drop (ds.length - k) = back at *
      subst hsplit hlength
      have hback : back ≠ [] := List.length_pos_iff.1 (by omega)
      rw [List.head?_append_of_ne_nil front hfront] at hhead
      rw [List.getLast?_append_of_ne_nil front hback] at hlast
      obtain ⟨hwhole, hfraction⟩ := List.forall_mem_append.1 hdigits
      exact isPlainDecimal_pointed hwhole hfraction hfront (fun hzero => absurd hzero hhead) hback hlast
    · -- zeros stand between the point and the digits
      rename_i hk'
      have hlength : (List.replicate (k - ds.length) '0' ++ ds).length = k := by
        rw [List.length_append, List.length_replicate]
        omega
      have hvalue : number (List.replicate 1 '0' ++ (List.replicate (k - ds.length) '0' ++ ds)) = number ds := by
        rw [← List.append_assoc, List.replicate_append_replicate, Numeric.number_append, Numeric.number_zeros,
          Nat.zero_mul, Nat.zero_add]
      have hpointed := isPlainDecimal_pointed (Numeric.isDigits_zeros 1) (List.forall_mem_append.2
        ⟨Numeric.isDigits_zeros (k - ds.length), hdigits⟩) (List.cons_ne_nil _ _) (fun _ => rfl)
        (List.append_ne_nil_of_right_ne_nil _ hne) (by rwa [List.getLast?_append_of_ne_nil _ hne])
      rwa [hvalue, hlength] at hpointed

end SpatialQuery.Decimal
