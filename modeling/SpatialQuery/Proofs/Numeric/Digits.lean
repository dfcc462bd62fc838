import Mathlib.Algebra.Group.Nat.Defs
import SpatialQuery.Text.Integer

/-!
Rows of digits and the numbers they stand for. Digits of one length are determined by their number
(`eq_of_number`), and so are digits without a zero in front (`ofNat_number`).
-/

namespace SpatialQuery.Numeric

/-- The number that digits stand for. -/
def number (cs : List Char) : Nat :=
  Nat.ofDigitChars 10 cs 0

theorem digitValue_zero : Text.digitValue '0' = 0 :=
  rfl

/-- All characters are decimal digits. -/
def IsDigits (cs : List Char) : Prop :=
  ∀ c ∈ cs, c.isDigit = true

theorem number_cons (c : Char) (cs : List Char) :
    number (c :: cs) = Text.digitValue c * 10 ^ cs.length + number cs := by
  rw [number, Nat.ofDigitChars_cons, Nat.ofDigitChars_eq_ofDigitChars_zero, Nat.mul_comm, Nat.mul_zero,
    Nat.zero_add]
  rfl

theorem number_append (cs ds : List Char) :
    number (cs ++ ds) = number cs * 10 ^ ds.length + number ds := by
  rw [number, Nat.ofDigitChars_append, Nat.ofDigitChars_eq_ofDigitChars_zero, Nat.mul_comm]
  rfl

theorem number_zeros (n : Nat) : number (List.replicate n '0') = 0 := by
  induction n with
  | zero => rfl
  | succ n ih =>
    rw [List.replicate_succ, number_cons, ih, digitValue_zero, Nat.zero_mul]

theorem isDigits_zeros (n : Nat) : IsDigits (List.replicate n '0') := by
  intro c hc
  rw [List.eq_of_mem_replicate hc]
  rfl

theorem number_lt {cs : List Char} (h : IsDigits cs) : number cs < 10 ^ cs.length := by
  induction cs with
  | nil => exact Nat.one_pos
  | cons c cs ih =>
    obtain ⟨hc, hcs⟩ := List.forall_mem_cons.1 h
    have hdigit := Text.digitValue_le hc
    have hrest := ih hcs
    have hle : Text.digitValue c * 10 ^ cs.length ≤ 9 * 10 ^ cs.length := Nat.mul_le_mul_right _ hdigit
    rw [number_cons, List.length_cons, Nat.pow_succ]
    omega

/-- The digits in front are the quotient, and the others the remainder. -/
theorem number_split (cs : List Char) {ds : List Char} (h : IsDigits ds) :
    number (cs ++ ds) / 10 ^ ds.length = number cs ∧ number (cs ++ ds) % 10 ^ ds.length = number ds := by
  have hlt := number_lt h
  rw [number_append, Nat.mul_comm]
  exact ⟨by rw [Nat.mul_add_div (Nat.pow_pos (by decide)), Nat.div_eq_of_lt hlt, Nat.add_zero],
    by rw [Nat.mul_add_mod, Nat.mod_eq_of_lt hlt]⟩

theorem number_take {cs : List Char} (h : IsDigits cs) (n : Nat) :
    number (cs.take n) = number cs / 10 ^ (cs.length - n) := by
  have hdrop : IsDigits (cs.drop n) := fun c hc => h c (List.mem_of_mem_drop hc)
  have hsplit := (number_split (cs.take n) hdrop).1
  rw [List.take_append_drop, List.length_drop] at hsplit
  exact hsplit.symm

theorem digitValue_injective {c d : Char} (hc : c.isDigit = true) (hd : d.isDigit = true)
    (h : Text.digitValue c = Text.digitValue d) : c = d := by
  have hc : 48 ≤ c.toNat := (Char.isDigit_iff_toNat.1 hc).1
  have hd : 48 ≤ d.toNat := (Char.isDigit_iff_toNat.1 hd).1
  change c.toNat - 48 = d.toNat - 48 at h
  exact Char.toNat_inj.1 (by omega)

theorem eq_of_number {cs ds : List Char} (hcs : IsDigits cs) (hds : IsDigits ds)
    (hlength : cs.length = ds.length) (h : number cs = number ds) : cs = ds := by
  induction cs generalizing ds with
  | nil => exact (List.length_eq_zero_iff.1 hlength.symm).symm
  | cons c cs ih =>
    cases ds with
    | nil => cases hlength
    | cons d ds =>
      obtain ⟨hc, hcs⟩ := List.forall_mem_cons.1 hcs
      obtain ⟨hd, hds⟩ := List.forall_mem_cons.1 hds
      have hlength : cs.length = ds.length := Nat.succ.inj hlength
      have hfirst := (number_split [c] hcs).1
      have hsecond := (number_split [d] hds).1
      have hrest := (number_split [c] hcs).2
      have hrest' := (number_split [d] hds).2
      rw [List.singleton_append] at hfirst hsecond hrest hrest'
      rw [h, hlength] at hfirst hrest
      have hvalue : Text.digitValue c = Text.digitValue d := by
        have := hfirst.symm.trans hsecond
        rwa [number_cons, number_cons, List.length_nil, Nat.pow_zero, Nat.mul_one, Nat.mul_one] at this
      rw [digitValue_injective hc hd hvalue, ih hcs hds hlength (hrest.symm.trans hrest')]

/-! ## Digits without a zero in front -/

theorem le_number {cs : List Char} (h : IsDigits cs) (hne : cs ≠ []) (hhead : cs.head? ≠ some '0') :
    10 ^ (cs.length - 1) ≤ number cs := by
  obtain ⟨c, cs, rfl⟩ := List.exists_cons_of_ne_nil hne
  have hc : c.isDigit = true := h c List.mem_cons_self
  have hpos : 0 < Text.digitValue c := by
    refine Nat.pos_of_ne_zero fun hzero => ?_
    exact hhead (congrArg some (digitValue_injective hc rfl (hzero.trans digitValue_zero.symm)))
  rw [number_cons, List.length_cons, Nat.add_sub_cancel]
  exact Nat.le_add_right_of_le (Nat.le_mul_of_pos_left _ hpos)

theorem number_ofNat (n : Nat) : number (Text.ofNat n) = n :=
  Text.foldl_ofNat n

/-- Digits with no zero in front are the decimal digits of their number. -/
theorem ofNat_number {cs : List Char} (h : IsDigits cs) (hne : cs ≠ []) (hhead : cs.head? ≠ some '0') :
    Text.ofNat (number cs) = cs := by
  have hbound := le_number h hne hhead
  have hlt := number_lt h
  have hpos : 0 < number cs := Nat.lt_of_lt_of_le (Nat.pow_pos (by decide)) hbound
  have hdigits : IsDigits (Text.ofNat (number cs)) := Text.isDigit_ofNat
  have hne' : Text.ofNat (number cs) ≠ [] := Nat.toDigits_ne_nil
  have hbound' := le_number hdigits hne' (Text.head?_ofNat hpos)
  have hlt' := number_lt hdigits
  rw [number_ofNat] at hbound' hlt'
  -- both have the number of digits that the number needs
  have hlength : (Text.ofNat (number cs)).length = cs.length := by
    have h₁ := (Nat.pow_lt_pow_iff_right (by decide : 1 < 10)).1 (Nat.lt_of_le_of_lt hbound hlt')
    have h₂ := (Nat.pow_lt_pow_iff_right (by decide : 1 < 10)).1 (Nat.lt_of_le_of_lt hbound' hlt)
    have := List.length_pos_iff.2 hne
    have := List.length_pos_iff.2 hne'
    omega
  exact eq_of_number hdigits h hlength (number_ofNat _)

/-- Zeros in front count nothing. -/
theorem number_dropWhile (cs : List Char) : number (cs.dropWhile (· == '0')) = number cs := by
  induction cs with
  | nil => rfl
  | cons c cs ih =>
    rw [List.dropWhile_cons]
    split
    · rename_i hc
      rw [ih, number_cons, eq_of_beq hc, digitValue_zero, Nat.zero_mul, Nat.zero_add]
    · rfl

end SpatialQuery.Numeric
