import Mathlib.Data.Nat.Digits.Defs
import SpatialQuery.Proofs.Numeric.Wire

/-!
Decoded numbers. The text of fields is their number, cut off behind the digits that the scale allows
(`text_spec`). So a message is read as the value that was sent, except that infinity is read as a finite number
and that a count of groups of 32768 or more is taken for none (`reported_iff`).
-/

namespace SpatialQuery.Numeric

/-! ## Texts of groups -/

theorem number_leftpad (width : Nat) (cs : List Char) : number (cs.leftpad width '0') = number cs := by
  rw [List.leftpad, number_append, number_zeros, Nat.zero_mul, Nat.zero_add]

theorem isDigits_leftpad {cs : List Char} (h : IsDigits cs) (width : Nat) : IsDigits (cs.leftpad width '0') :=
  List.forall_mem_append.2 ⟨isDigits_zeros _, h⟩

/-- A group is written with four digits. -/
theorem groupText_spec {g : Int} (h : 0 ≤ g ∧ g ≤ 9999) :
    IsDigits (groupText g) ∧ (groupText g).length = 4 ∧ (number (groupText g) : Int) = g := by
  have hlength : (Text.ofNat g.natAbs).length ≤ 4 := Nat.toDigits_length 10 g.natAbs 4 (by decide) (by omega)
  rw [groupText, if_neg (by omega)]
  refine ⟨isDigits_leftpad Text.isDigit_ofNat _, ?_, ?_⟩
  · rw [List.length_leftpad]
    omega
  · rw [number_leftpad, number_ofNat]
    omega

theorem groupTexts_spec {gs : List Int} (h : AreGroups gs) : IsDigits (gs.flatMap groupText) ∧
    (gs.flatMap groupText).length = 4 * gs.length ∧ (number (gs.flatMap groupText) : Int) = groupsNumber gs := by
  induction gs using List.reverseRecOn with
  | nil => exact ⟨List.forall_mem_nil _, rfl, rfl⟩
  | append_singleton gs g ih =>
    obtain ⟨hgs, hg⟩ := List.forall_mem_append.1 h
    obtain ⟨hdigits, hlength, hnumber⟩ := ih hgs
    obtain ⟨hdigits', hlength', hnumber'⟩ := groupText_spec (hg g (List.mem_singleton_self g))
    rw [List.flatMap_append, List.flatMap_singleton]
    refine ⟨List.forall_mem_append.2 ⟨hdigits, hdigits'⟩, ?_, ?_⟩
    · rw [List.length_append, List.length_append, hlength, hlength', List.length_singleton]
      ring
    · rw [number_append, groupsNumber_concat, hlength']
      push_cast
      rw [hnumber, hnumber']
      ring

theorem ofInt_group {g : Int} (h : 0 ≤ g) : IsDigits (Text.ofInt g) ∧ Text.ofInt g ≠ [] ∧
    (number (Text.ofInt g) : Int) = g := by
  rw [Text.ofInt, if_neg (by omega)]
  refine ⟨Text.isDigit_ofNat, Nat.toDigits_ne_nil, ?_⟩
  rw [number_ofNat]
  omega

section Fields

variable {f : Fields} (h : AreGroups f.groups)

include h

theorem group_bounds (place : Int) : 0 ≤ f.group place ∧ f.group place ≤ 9999 := by
  rw [Fields.group]
  split
  · decide
  · rw [List.getD_eq_getElem?_getD]
    cases hg : f.groups[place.toNat]? with
    | none => decide
    | some g => exact h g (List.mem_of_getElem? hg)

theorem areGroups_groupsFrom (start : Int) (count : Nat) : AreGroups (f.groupsFrom start count) :=
  List.forall_mem_map.2 fun _ _ => group_bounds h _

/-! ## The text of fields -/

theorem wholeText_digits : IsDigits f.wholeText ∧ f.wholeText ≠ [] := by
  rw [Fields.wholeText]
  split
  · exact ⟨List.forall_mem_singleton.2 rfl, List.cons_ne_nil _ _⟩
  · obtain ⟨hdigits, hne, -⟩ := ofInt_group (group_bounds h 0).1
    exact ⟨List.forall_mem_append.2 ⟨hdigits, (groupTexts_spec (areGroups_groupsFrom h _ _)).1⟩,
      List.append_ne_nil_of_left_ne_nil hne _⟩

/-- With more groups behind the point, the text is the number cut off behind them. -/
theorem number_wholeText (count : Nat) :
    (number (f.wholeText ++ (f.groupsFrom (f.weight + 1) count).flatMap groupText) : Int) =
      ⌊groupsValue (f.weight + count) f.groups⌋ := by
  obtain ⟨-, hlength, hbehind⟩ := groupTexts_spec (areGroups_groupsFrom h (f.weight + 1) count)
  have hplace : f.weight + 1 + count - 1 = f.weight + count := by ring
  rw [Fields.wholeText]
  split
  · have hfloor := number_groupsFrom h (show f.weight + 1 ≤ 0 by omega) count
    rw [number_append, show number ['0'] = 0 from rfl, Nat.zero_mul, Nat.zero_add, hbehind, hfloor, hplace]
  · rename_i hweight
    -- the groups in front of the point and those behind it are one row from the first group on
    obtain ⟨front, hfront⟩ : ∃ front : Nat, f.weight = front := ⟨f.weight.toNat, by omega⟩
    have hrow : f.groupsFrom 0 (front + 1 + count) =
        f.group 0 :: f.groupsFrom 1 front ++ f.groupsFrom (f.weight + 1) count := by
      rw [Fields.groupsFrom, List.range_add, List.map_append, List.range_succ_eq_map, List.map_cons,
        List.map_map, List.map_map, hfront]
      refine congrArg₂ (fun a b => f.group 0 :: a ++ b) ?_ ?_
      · refine List.map_congr_left fun i _ => congrArg f.group ?_
        change (0 : Int) + (i + 1 : Nat) = 1 + i
        omega
      · refine List.map_congr_left fun i _ => congrArg f.group ?_
        change (0 : Int) + (front + 1 + i : Nat) = front + 1 + i
        omega
    have hfloor := number_groupsFrom h (le_refl (0 : Int)) (front + 1 + count)
    have hspec := (groupTexts_spec (areGroups_groupsFrom h 0 (front + 1 + count))).2.2
    have hfirst := (groupText_spec (group_bounds h 0)).2.2
    have hfirst' := (ofInt_group (group_bounds h 0).1).2.2
    have hsame : number (Text.ofInt (f.group 0)) = number (groupText (f.group 0)) := by
      exact_mod_cast hfirst'.trans hfirst.symm
    rw [hrow, List.flatMap_append, List.flatMap_cons, List.append_assoc, number_append, ← hsame,
      ← number_append, ← List.append_assoc] at hspec
    rw [hfront, Int.toNat_natCast, ← hfront, hspec, ← hrow, hfloor]
    push_cast
    rw [← hfront]
    congr 2
    ring

/-- The text in front of the point and behind it: as many digits as the scale says, and the number cut off
there. -/
theorem text_parts : IsDigits f.fractionText ∧ f.fractionText.length = f.scale ∧
    (number (f.wholeText ++ f.fractionText) : Int) = ⌊groupsValue f.weight f.groups * 10 ^ f.scale⌋ := by
  generalize hcount : (f.scale + 3) / 4 = count
  obtain ⟨hdigits, hlength, -⟩ := groupTexts_spec (areGroups_groupsFrom h (f.weight + 1) count)
  have hnumber := number_wholeText h count
  have htaken : f.fractionText = ((f.groupsFrom (f.weight + 1) count).flatMap groupText).take f.scale := by
    rw [Fields.fractionText, hcount]
  generalize (f.groupsFrom (f.weight + 1) count).flatMap groupText = digits at *
  have hgroups : digits.length = 4 * count := by
    rw [hlength, Fields.groupsFrom, List.length_map, List.length_range]
  -- the last group may hold digits behind the scale, which are cut off
  have hscale : f.scale ≤ 4 * count := by omega
  have hall : IsDigits (f.wholeText ++ digits) := List.forall_mem_append.2 ⟨(wholeText_digits h).1, hdigits⟩
  have htake : f.wholeText ++ digits.take f.scale = (f.wholeText ++ digits).take (f.wholeText.length + f.scale) := by
    rw [List.take_append, List.take_of_length_le (Nat.le_add_right _ _), Nat.add_sub_cancel_left]
  rw [htaken]
  refine ⟨fun c hc => hdigits c (List.mem_of_mem_take hc), by rw [List.length_take]; omega, ?_⟩
  rw [htake, number_take hall, List.length_append, hgroups, Nat.add_sub_add_left]
  push_cast
  have hpower : groupsValue (f.weight + count) f.groups / ((10 ^ (4 * count - f.scale) : Nat) : ℚ) =
      groupsValue f.weight f.groups * 10 ^ f.scale := by
    have hten : (10000 : ℚ) ^ count = 10 ^ f.scale * 10 ^ (4 * count - f.scale) := by
      rw [← pow_add, Nat.add_sub_cancel' hscale, pow_mul]
      norm_num
    rw [groupsValue_add, zpow_natCast, hten]
    push_cast
    field_simp
  have hfloor := Int.floor_div_natCast (groupsValue (f.weight + count) f.groups) (10 ^ (4 * count - f.scale))
  rw [hpower] at hfloor
  rw [hnumber, hfloor]
  push_cast
  rfl

/-- The text of fields is a decimal number with their sign. -/
theorem text_spec (hsign : f.sign ≠ signNaN) :
    Written (.decimal (f.sign == signNegative) f.wholeText f.fractionText) f.text := by
  obtain ⟨hwhole, hne⟩ := wholeText_digits h
  obtain ⟨hfraction, hlength, -⟩ := text_parts h
  have hs : IsSign (f.sign == signNegative) (if f.sign == signNegative then ['-'] else []) := by
    cases f.sign == signNegative with
    | true => exact .minus
    | false => exact .none
  have hnan : (f.sign == signNaN) = false := beq_eq_false_iff_ne.2 hsign
  rw [Fields.text, hnan, if_neg Bool.false_ne_true, List.append_assoc]
  by_cases hscale : f.scale = 0
  · have hnone : (f.scale == 0) = true := beq_iff_eq.2 hscale
    rw [List.length_eq_zero_iff.1 (hlength.trans hscale), hnone, if_pos rfl, List.append_nil]
    exact .whole hs hwhole hne
  · have hsome : (f.scale == 0) = false := beq_eq_false_iff_ne.2 hscale
    rw [hsome, if_neg Bool.false_ne_true]
    exact .point hs hwhole hfraction (List.append_ne_nil_of_left_ne_nil hne _)

end Fields

/-! ## Messages -/

theorem pairs_groupBytes {gs : List Int} (h : AreGroups gs) : pairs gs.length (groupBytes gs) = gs := by
  induction gs with
  | nil => rfl
  | cons g gs ih =>
    obtain ⟨hg, hgs⟩ := List.forall_mem_cons.1 h
    have hfirst : Bytes.toInt (Bytes.ofInt 2 g) = g := toInt_ofInt (by omega)
    change Bytes.toInt (Bytes.ofInt 2 g) :: pairs gs.length (groupBytes gs) = g :: gs
    rw [hfirst, ih hgs]

theorem read?_short {w : Bytes} (h : w.length < 8) : Fields.read? w = none := by
  unfold Fields.read?
  split
  · simp only [List.length_cons] at h
    omega
  · rfl

/-- A header is read without its groups only if it is the one of NaN. A count of 32768 or more is read as a
negative one. -/
theorem read?_eq {w : Bytes} (h : 8 ≤ w.length) :
    Fields.read? w =
      if (pairAt 2 w).toNat = signNaN then some ⟨[], 0, signNaN, 0⟩
      else if w.length < 8 + 2 * (pairAt 0 w).toInt.toNat then none
      else some ⟨pairs (pairAt 0 w).toInt.toNat (w.drop 8), (pairAt 1 w).toInt, (pairAt 2 w).toNat,
        (pairAt 3 w).toNat⟩ := by
  match w, h with
  | n₁ :: n₂ :: w₁ :: w₂ :: s₁ :: s₂ :: d₁ :: d₂ :: bs, _ =>
    change (if Bytes.toNat [s₁, s₂] == signNaN then _ else if bs.length < _ then _ else _) =
      if Bytes.toNat [s₁, s₂] = signNaN then _ else if (bs.length + 8) < 8 + _ then _ else _
    simp only [beq_iff_eq, Nat.add_comm bs.length 8, Nat.add_lt_add_iff_left]
    rfl

/-- The two bytes of a count, as they are read. -/
theorem toNat_toInt_ofNat {n : Nat} (h : n < 65536) :
    (Bytes.toInt (Bytes.ofNat 2 n)).toNat = if n < 32768 then n else 0 := by
  rw [toInt_eq (Bytes.length_ofNat 2 n), toNat_ofNat, Nat.mod_eq_of_lt h]
  split <;> omega

def signInfinity : Nat := 0xD000

def signNegativeInfinity : Nat := 0xF000

/-- The sign is one of a finite number. -/
def Fields.IsFinite (f : Fields) : Prop :=
  f.sign = signPositive ∨ f.sign = signNegative

/-- The fields of a number that a database sends. Of a finite one the scale covers all digits. -/
structure Fields.WellFormed (f : Fields) : Prop where
  count : f.groups.length < 65536
  group : AreGroups f.groups
  weight : -32768 ≤ f.weight ∧ f.weight < 32768
  sign : f.IsFinite ∨ f.sign = signNaN ∨ f.sign = signInfinity ∨ f.sign = signNegativeInfinity
  scale : f.scale < 65536
  covered : f.IsFinite → ∃ z : Int, groupsValue f.weight f.groups * 10 ^ f.scale = z

/-- The text stands for exactly the value of the fields. -/
inductive Denotes (f : Fields) (cs : List Char) : Prop
  | nan : f.sign = signNaN → cs.map Char.toLower = "nan".toList → Denotes f cs
  | infinity : f.sign = signInfinity → cs.map Char.toLower = "infinity".toList → Denotes f cs
  | negativeInfinity : f.sign = signNegativeInfinity → cs.map Char.toLower = "-infinity".toList → Denotes f cs
  | finite {whole fraction : List Char} : f.IsFinite →
      Written (.decimal (f.sign == signNegative) whole fraction) cs →
        magnitude whole fraction = groupsValue f.weight f.groups → fraction.length = f.scale → Denotes f cs

theorem Fields.WellFormed.sign_lt {f : Fields} (h : f.WellFormed) : f.sign < 65536 := by
  obtain (hsign | hsign) | hsign | hsign | hsign := h.sign <;> rw [hsign] <;> decide

/-- Well-formed fields arrive as they were sent, but for NaN and for groups that are too many. -/
theorem read?_bytes {f : Fields} (h : f.WellFormed) :
    Fields.read? f.bytes =
      if f.sign = signNaN then some ⟨[], 0, signNaN, 0⟩
      else some { f with groups := if f.groups.length < 32768 then f.groups else [] } := by
  have hlength := length_bytes f
  have hcount : (pairAt 0 f.bytes).toInt.toNat = if f.groups.length < 32768 then f.groups.length else 0 :=
    toNat_toInt_ofNat h.count
  have hsign : (pairAt 2 f.bytes).toNat = f.sign := (toNat_ofNat f.sign).trans (Nat.mod_eq_of_lt h.sign_lt)
  have hscale : (pairAt 3 f.bytes).toNat = f.scale := (toNat_ofNat f.scale).trans (Nat.mod_eq_of_lt h.scale)
  have hweight : (pairAt 1 f.bytes).toInt = f.weight := toInt_ofInt h.weight
  have hgroups : pairs (if f.groups.length < 32768 then f.groups.length else 0) (f.bytes.drop 8) =
      if f.groups.length < 32768 then f.groups else [] := by
    split
    · exact pairs_groupBytes h.group
    · rfl
  have hroom : ¬f.bytes.length < 8 + 2 * if f.groups.length < 32768 then f.groups.length else 0 := by
    split <;> omega
  rw [read?_eq (by omega), hsign, hcount, hweight, hscale, hgroups, if_neg hroom]

/-- A decimal number is the text of no other special value. -/
theorem denotes_decimal_iff {f : Fields} {negative : Bool} {whole fraction cs : List Char}
    (h : Written (.decimal negative whole fraction) cs) :
    Denotes f cs ↔ f.IsFinite ∧ negative = (f.sign == signNegative) ∧
      magnitude whole fraction = groupsValue f.weight f.groups ∧ fraction.length = f.scale := by
  have hletter : ∀ {c : Char} {ds : List Char}, cs.map Char.toLower = ds → c ∈ ds → c.toNat ≤ 57 := by
    rintro c _ rfl hc
    obtain ⟨d, hd, rfl⟩ := List.mem_map.1 hc
    have hrange := (h.range d hd).2
    rwa [toLower_eq (by omega)]
  constructor
  · rintro (⟨-, hcs⟩ | ⟨-, hcs⟩ | ⟨-, hcs⟩ | ⟨hfinite, hwritten, hvalue, hlength⟩)
    · exact absurd (hletter (c := 'n') hcs (by decide)) (by decide)
    · exact absurd (hletter (c := 'n') hcs (by decide)) (by decide)
    · exact absurd (hletter (c := 'n') hcs (by decide)) (by decide)
    · have hsame := Option.some.inj ((read?_iff.2 h).symm.trans (read?_iff.2 hwritten))
      obtain ⟨rfl, rfl, rfl⟩ := Numeral.decimal.inj hsame
      exact ⟨hfinite, rfl, hvalue, hlength⟩
  · rintro ⟨hfinite, rfl, hvalue, hlength⟩
    exact .finite hfinite h hvalue hlength

/-- The number that the text of fields stands for. -/
theorem magnitude_text {f : Fields} (h : AreGroups f.groups) :
    magnitude f.wholeText f.fractionText = ⌊groupsValue f.weight f.groups * 10 ^ f.scale⌋ / 10 ^ f.scale := by
  obtain ⟨-, hlength, hnumber⟩ := text_parts h
  rw [magnitude, hlength, ← hnumber, Int.cast_natCast]

/-- Well-formed fields are never refused, and what is read of them is right unless they are infinite or their
groups are lost. -/
theorem denotes_decoded_iff {f : Fields} (h : f.WellFormed) : (∀ s, decode? f.bytes = some s → Denotes f s.toList) ↔
    f.sign = signNaN ∨ f.IsFinite ∧ (f.groups.length < 32768 ∨ ∀ g ∈ f.groups, g = 0) := by
  have hread := read?_bytes h
  by_cases hnan : f.sign = signNaN
  · rw [if_pos hnan] at hread
    refine iff_of_true (fun s hs => ?_) (.inl hnan)
    rw [decode?, hread] at hs
    obtain rfl := Option.some.inj hs
    exact .nan hnan (by decide)
  rw [if_neg hnan] at hread
  -- a count of groups that reads as negative stands for none
  generalize hf' : { f with groups := if f.groups.length < 32768 then f.groups else [] } = f' at hread
  have hgroups : f'.groups = if f.groups.length < 32768 then f.groups else [] := by rw [← hf']
  have hsame : f'.sign = f.sign ∧ f'.weight = f.weight ∧ f'.scale = f.scale := by
    rw [← hf']
    exact ⟨rfl, rfl, rfl⟩
  obtain ⟨hsign, hweight, hscale⟩ := hsame
  have hall : AreGroups f'.groups := by
    rw [hgroups]
    split
    · exact h.group
    · exact List.forall_mem_nil _
  have hwritten := text_spec hall (by rwa [hsign])
  have hdecode : decode? f.bytes = some (String.ofList f'.text) := by rw [decode?, hread]; rfl
  have hlength := (text_parts hall).2.1
  have hvalue := magnitude_text hall
  rw [hdecode]
  simp only [Option.some.injEq, forall_eq', String.toList_ofList, denotes_decimal_iff hwritten, hsign,
    hlength, hscale, true_and, and_true, hnan, false_or]
  refine and_congr_right fun hfinite => ?_
  rw [hvalue, hweight, hscale]
  obtain ⟨z, hz⟩ := h.covered hfinite
  have hpower : (0 : ℚ) < 10 ^ f.scale := by positivity
  by_cases hfew : f.groups.length < 32768
  · rw [if_pos hfew] at hgroups
    rw [hgroups, hz, Int.floor_intCast, ← hz, mul_div_cancel_right₀ _ hpower.ne']
    exact iff_of_true rfl (.inl hfew)
  · rw [if_neg hfew] at hgroups
    rw [hgroups, groupsValue, zero_mul, Int.floor_zero, Int.cast_zero, zero_div, eq_comm,
      groupsValue_eq_zero_iff h.group]
    exact (or_iff_right hfew).symm

/-- How many groups the header announces. -/
def announced (w : Bytes) : Nat :=
  (pairAt 0 w).toNat

/-- The bytes end in the header, or in the groups that it announces; NaN has none. -/
def Short (w : Bytes) : Prop :=
  w.length < 8 ∨ (pairAt 2 w).toNat ≠ signNaN ∧ w.length < 8 + 2 * announced w

/-- Bytes are read as exactly the value that was sent, or not at all; and if they are cut off, not at all. -/
def Reported (w : Bytes) : Prop :=
  (∀ f : Fields, f.WellFormed → f.bytes = w → ∀ s, decode? w = some s → Denotes f s.toList) ∧
    (Short w → decode? w = none)

theorem short_decoded_iff (w : Bytes) :
    (Short w → decode? w = none) ↔ (Short w → w.length < 8 ∨ announced w < 32768) := by
  refine forall_congr' fun hshort => ?_
  by_cases hheader : w.length < 8
  · rw [decode?, read?_short hheader]
    exact iff_of_true rfl (.inl hheader)
  obtain ⟨hsign, hlength⟩ := hshort.resolve_left hheader
  have hcount := toInt_eq (length_pairAt 0 (w := w) (by omega))
  change _ = if announced w < 32768 then (announced w : Int) else announced w - 65536 at hcount
  have hlt : announced w < 65536 := toNat_lt (length_pairAt 0 (w := w) (by omega))
  rw [decode?, read?_eq (by omega), if_neg hsign, Option.map_eq_none_iff, or_iff_right hheader]
  by_cases hfew : announced w < 32768
  · rw [if_pos hfew] at hcount
    rw [hcount, Int.toNat_natCast, if_pos hlength]
    exact iff_of_true rfl hfew
  · rw [if_neg hfew] at hcount
    rw [hcount, show ((announced w : Int) - 65536).toNat = 0 by omega, if_neg (by omega)]
    exact iff_of_false nofun hfew

/-- A message is misreported exactly if it is an infinity, or if it announces 32768 groups or more and they are
not all zero, or cut off. -/
theorem reported_iff (w : Bytes) : Reported w ↔
    (∀ f : Fields, f.WellFormed → f.bytes = w →
      f.sign = signNaN ∨ f.IsFinite ∧ (f.groups.length < 32768 ∨ ∀ g ∈ f.groups, g = 0)) ∧
    (Short w → w.length < 8 ∨ announced w < 32768) := by
  rw [Reported, short_decoded_iff]
  refine and_congr_left fun _ => forall_congr' fun f => forall_congr' fun hf => ?_
  constructor
  · rintro h rfl
    exact (denotes_decoded_iff hf).1 (h rfl)
  · rintro h rfl
    exact (denotes_decoded_iff hf).2 (h rfl)

/-- The header of an infinity, which has no groups, is read as zero. -/
theorem reported_infinity : ¬Reported [0, 0, 0, 0, 0xD0, 0, 0, 0] := by
  intro h
  have hfields : Fields.WellFormed ⟨[], 0, signInfinity, 0⟩ := by
    refine ⟨by decide, List.forall_mem_nil _, by decide, .inr (.inr (.inl rfl)), by decide, ?_⟩
    rintro (hsign | hsign) <;> exact absurd hsign (by decide)
  have hdenotes := h.1 _ hfields (by decide) "0" (by decide)
  have hzero : Written (.decimal false ['0'] []) "0".toList :=
    .whole .none (List.forall_mem_singleton.2 rfl) (List.cons_ne_nil _ _)
  obtain (hsign | hsign) := ((denotes_decimal_iff hzero).1 hdenotes).1 <;> exact absurd hsign (by decide)

end SpatialQuery.Numeric
