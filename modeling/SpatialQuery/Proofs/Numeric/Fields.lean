import Mathlib.Data.List.DropRight
import SpatialQuery.Proofs.Numeric.Groups
import SpatialQuery.Proofs.Numeric.Texts

/-!
The fields of a number: its groups without zeros at the ends, the weight of the first one, its sign and the
number of digits behind its point (`HasFields`). A number has exactly the fields that are made of its digits
(`hasFields_iff`).
-/

namespace SpatialQuery.Numeric

/-- The number that the digits before and behind a point stand for, without its sign. -/
def magnitude (whole fraction : List Char) : ℚ :=
  number (whole ++ fraction) / 10 ^ fraction.length

/-- The fields that a number has, by its value and by the digits behind its point. Zero has no sign. -/
inductive HasFields : Numeral → Fields → Prop
  | nan : HasFields .nan ⟨[], 0, signNaN, 0⟩
  | decimal {negative : Bool} {whole fraction : List Char} {groups : List Int} {weight : Int} :
      Expands (magnitude whole fraction) weight groups →
        HasFields (.decimal negative whole fraction)
          ⟨groups, weight, if negative = true ∧ groups ≠ [] then signNegative else signPositive, fraction.length⟩

theorem HasFields.unique {n : Numeral} {f g : Fields} (hf : HasFields n f) (hg : HasFields n g) : f = g := by
  cases hf with
  | nan =>
    cases hg with
    | nan => rfl
  | decimal hf =>
    cases hg with
    | decimal hg =>
      obtain ⟨rfl, rfl⟩ := hf.unique hg
      rfl

/-! ## Digits in groups -/

theorem groupsOf_spec {cs : List Char} (h : IsDigits cs) {k : Nat} (hlength : cs.length = 4 * k) :
    AreGroups (groupsOf cs) ∧ (groupsOf cs).length = k ∧ groupsValue (k - 1) (groupsOf cs) = number cs := by
  induction k generalizing cs with
  | zero =>
    obtain rfl := List.length_eq_zero_iff.1 hlength
    exact ⟨List.forall_mem_nil _, rfl, rfl⟩
  | succ k ih =>
    obtain ⟨a, b, c, d, ds, rfl⟩ : ∃ a b c d ds, cs = a :: b :: c :: d :: ds := by
      match cs, hlength with
      | a :: b :: c :: d :: ds, _ => exact ⟨a, b, c, d, ds, rfl⟩
    have hds : ds.length = 4 * k := by
      simp only [List.length_cons] at hlength
      omega
    have hfour : IsDigits [a, b, c, d] := fun e he => h e (List.mem_append_left ds he)
    obtain ⟨hgroups, hcount, hvalue⟩ := ih (fun e he => h e (List.mem_append_right [a, b, c, d] he)) hds
    have hlt : number [a, b, c, d] < 10 ^ 4 := number_lt hfour
    have hfirst : groupsOf (a :: b :: c :: d :: ds) = (number [a, b, c, d] : Int) :: groupsOf ds := rfl
    rw [hfirst]
    refine ⟨List.forall_mem_cons.2 ⟨by omega, hgroups⟩, by rw [List.length_cons, hcount], ?_⟩
    have hnumber := number_append [a, b, c, d] ds
    rw [List.cons_append, List.cons_append, List.cons_append, List.cons_append, List.nil_append, hds,
      pow_mul] at hnumber
    rw [groupsValue, hnumber, Nat.cast_succ, add_sub_cancel_right, hvalue, zpow_natCast]
    push_cast
    norm_num

/-- The zeros that fill up to a group. -/
theorem fill_add (n : Nat) : fill n + n = 4 * ((fill n + n) / 4) := by
  unfold fill
  omega

/-- The groups around the point stand for the digits around it. -/
theorem groupsAround_spec {whole fraction : List Char} (hwhole : IsDigits whole) (hfraction : IsDigits fraction) :
    AreGroups (groupsAround whole fraction).1 ∧
      (groupsAround whole fraction).1.length =
        (groupsAround whole fraction).2 + (fill fraction.length + fraction.length) / 4 ∧
      groupsValue ((groupsAround whole fraction).2 - 1) (groupsAround whole fraction).1 =
        magnitude whole fraction := by
  have hfront := fill_add whole.length
  have hback := fill_add fraction.length
  generalize hcs : List.replicate (fill whole.length) '0' ++ whole ++ fraction ++
    List.replicate (fill fraction.length) '0' = cs
  have hdigits : IsDigits cs := by
    rw [← hcs]
    exact List.forall_mem_append.2 ⟨List.forall_mem_append.2
      ⟨List.forall_mem_append.2 ⟨isDigits_zeros _, hwhole⟩, hfraction⟩, isDigits_zeros _⟩
  have hnumber : number cs = number (whole ++ fraction) * 10 ^ fill fraction.length := by
    rw [← hcs, number_append, number_zeros, Nat.add_zero, List.length_replicate, List.append_assoc,
      number_append (List.replicate _ _), number_zeros, Nat.zero_mul, Nat.zero_add]
  have hgroups : groupsAround whole fraction = (groupsOf cs, (fill whole.length + whole.length) / 4) := by
    rw [groupsAround, hcs]
  rw [hgroups]
  generalize (fill whole.length + whole.length) / 4 = front at *
  generalize (fill fraction.length + fraction.length) / 4 = back at *
  have hlength : cs.length = 4 * (front + back) := by
    rw [← hcs]
    simp only [List.length_append, List.length_replicate]
    omega
  obtain ⟨hall, hcount, hvalue⟩ := groupsOf_spec hdigits hlength
  refine ⟨hall, hcount, ?_⟩
  -- the groups behind the point count negative powers
  have hshift := groupsValue_add ((front + back : Nat) - 1) (-back) (groupsOf cs)
  rw [show ((front + back : Nat) : Int) - 1 + -back = front - 1 by push_cast; ring, hvalue, hnumber] at hshift
  have hpower : (10000 : ℚ) ^ (-(back : Int)) = ((10 : ℚ) ^ (fill fraction.length + fraction.length))⁻¹ := by
    rw [hback, pow_mul, zpow_neg, zpow_natCast]
    norm_num
  rw [hshift, hpower, magnitude, pow_add]
  push_cast
  field_simp

/-! ## Zeros at the ends -/

theorem dropWhile_eq {α : Type} [BEq α] [LawfulBEq α] (a : α) (xs : List α) :
    ∃ n, xs = List.replicate n a ++ xs.dropWhile (· == a) ∧ xs.length - (xs.dropWhile (· == a)).length = n := by
  have hsplit := List.takeWhile_append_dropWhile (p := (· == a)) (l := xs)
  have hsame : xs.takeWhile (· == a) = List.replicate (xs.takeWhile (· == a)).length a :=
    List.eq_replicate_iff.2 ⟨rfl, fun b hb => by simpa using List.mem_takeWhile_imp hb⟩
  refine ⟨(xs.takeWhile (· == a)).length, ?_, ?_⟩
  · rw [← hsame, hsplit]
  · have := congrArg List.length hsplit
    rw [List.length_append] at this
    omega

/-- Equal elements at the end. -/
theorem rdropWhile_eq {α : Type} [BEq α] [LawfulBEq α] (a : α) (xs : List α) :
    ∃ n, xs = xs.rdropWhile (· == a) ++ List.replicate n a := by
  obtain ⟨n, hxs, -⟩ := dropWhile_eq a xs.reverse
  refine ⟨n, ?_⟩
  have := congrArg List.reverse hxs
  rwa [List.reverse_reverse, List.reverse_append, List.reverse_replicate] at this

theorem groupsValue_zeros_append (weight : Int) (n : Nat) (gs : List Int) :
    groupsValue weight (List.replicate n 0 ++ gs) = groupsValue (weight - n) gs := by
  induction n generalizing weight with
  | zero =>
    rw [Nat.cast_zero, sub_zero]
    rfl
  | succ n ih =>
    rw [List.replicate_succ, List.cons_append, groupsValue_zero_cons, ih]
    push_cast
    ring_nf

theorem head?_dropWhile_zero (gs : List Int) : (gs.dropWhile (· == 0)).head? ≠ some 0 := by
  intro h
  have := List.head?_dropWhile_not (· == (0 : Int)) gs
  rw [h] at this
  exact absurd this (by decide)

/-- Groups without the zeros at their ends. -/
theorem expands_kept {gs : List Int} (h : AreGroups gs) {weight : Int} {x : ℚ} (hvalue : groupsValue weight gs = x)
    {stripped kept : List Int} (hstripped : gs.dropWhile (· == 0) = stripped)
    (hkept : (stripped.reverse.dropWhile (· == 0)).reverse = kept) :
    Expands x (if kept = [] then 0 else weight - (gs.length - stripped.length)) kept := by
  obtain ⟨front, hgs, hcount⟩ := dropWhile_eq 0 gs
  obtain ⟨back, hback⟩ := rdropWhile_eq 0 stripped
  rw [List.rdropWhile, hkept] at hback
  rw [hstripped] at hgs hcount
  have hweight : groupsValue (weight - (gs.length - stripped.length)) kept = x := by
    rw [← hvalue, ← groupsValue_append_zeros _ kept back, ← hback, hgs, groupsValue_zeros_append]
    rw [hgs, List.length_append, List.length_replicate] at hcount
    rw [List.length_append, List.length_replicate]
    push_cast
    ring_nf
  refine ⟨?_, ?_, ?_, ?_, fun hempty => if_pos hempty⟩
  · intro g hg
    exact h g (by rw [hgs, hback]; exact List.mem_append_right _ (List.mem_append_left _ hg))
  · split
    · rename_i hempty
      rw [hempty] at hweight ⊢
      exact hweight
    · exact hweight
  · intro hhead
    refine head?_dropWhile_zero gs ?_
    rw [hstripped, hback, List.head?_append, hhead]
    rfl
  · intro hlast
    rw [← hkept, List.getLast?_reverse] at hlast
    exact head?_dropWhile_zero _ hlast

/-- What is made of the digits of a number are its fields. -/
theorem hasFields_ofNumeral {n : Numeral} {cs : List Char} (h : Written n cs) :
    HasFields n (Fields.ofNumeral n) := by
  cases n with
  | nan => exact .nan
  | decimal negative whole fraction =>
    obtain ⟨hwhole, hfraction⟩ := h.digits
    -- zeros in front of the number are dropped before its groups are made, and do not change it
    have hdrop : IsDigits (whole.dropWhile (· == '0')) := fun c hc =>
      hwhole c ((List.dropWhile_suffix _).mem hc)
    have hmagnitude : magnitude (whole.dropWhile (· == '0')) fraction = magnitude whole fraction := by
      rw [magnitude, magnitude, number_append, number_append, number_dropWhile]
    obtain ⟨hgroups, -, hvalue⟩ := groupsAround_spec hdrop hfraction
    rw [hmagnitude] at hvalue
    unfold Fields.ofNumeral
    dsimp only
    generalize groupsAround (whole.dropWhile (· == '0')) fraction = around at *
    have hexpands := expands_kept hgroups hvalue rfl rfl
    have hfields : HasFields (.decimal negative whole fraction) _ := .decimal hexpands
    generalize ((around.1.dropWhile (· == 0)).reverse.dropWhile (· == 0)).reverse = kept at *
    by_cases hempty : kept = []
    · subst hempty
      simpa using hfields
    · rw [if_neg (by simpa using hempty)]
      simpa [hempty] using hfields

theorem hasFields_iff {n : Numeral} {cs : List Char} (h : Written n cs) {f : Fields} :
    HasFields n f ↔ f = Fields.ofNumeral n := by
  refine ⟨fun hf => hf.unique (hasFields_ofNumeral h), ?_⟩
  rintro rfl
  exact hasFields_ofNumeral h

end SpatialQuery.Numeric
