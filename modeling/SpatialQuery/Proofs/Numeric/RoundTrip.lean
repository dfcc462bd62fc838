import SpatialQuery.Proofs.Numeric.Decoding

/-!
Numbers that are encoded and decoded again. The text of the fields of a number is its canonical text
(`text_of_hasFields`), which has the same fields (`hasFields_text`). So every number whose fields fit is decoded
to its canonical text, and that text is encoded to the same bytes (`decoded_canonical`).
-/

namespace SpatialQuery.Numeric

/-- The digits behind the point. -/
def Numeral.fraction : Numeral → List Char
  | .nan => []
  | .decimal _ _ fraction => fraction

/-- How many groups of four digits a number takes; zeros in front of it and at its end take none. -/
def Numeral.groupCount : Numeral → Nat
  | .nan => 0
  | .decimal _ whole fraction =>
    ((whole.dropWhile (· == '0')).length + 3) / 4 + ((fraction.rdropWhile (· == '0')).length + 3) / 4

/-- The text of a number with no sign but a minus in front of what is not zero, no zeros in front of the first
digit, and all digits behind the point. -/
def Numeral.canonical : Numeral → List Char
  | .nan => "NaN".toList
  | .decimal negative whole fraction =>
    (if negative ∧ number (whole ++ fraction) ≠ 0 then ['-'] else []) ++ Text.ofNat (number whole) ++
      if fraction = [] then [] else '.' :: fraction

/-! ## Numbers whose fields fit -/

/-- Zeros in front of a number and at its end count nothing. -/
theorem magnitude_stripped (whole fraction : List Char) :
    magnitude (whole.dropWhile (· == '0')) (fraction.rdropWhile (· == '0')) = magnitude whole fraction := by
  obtain ⟨n, hfraction⟩ := rdropWhile_eq '0' fraction
  generalize fraction.rdropWhile (· == '0') = kept at *
  subst hfraction
  rw [magnitude, magnitude, ← List.append_assoc, number_append (whole ++ kept), number_zeros, number_append,
    number_dropWhile, ← number_append, List.length_append, List.length_replicate, pow_add]
  push_cast
  field_simp
  ring

/-- The groups of a number are among the groups around its point. -/
theorem Expands.bounds {whole fraction : List Char} (hwhole : IsDigits whole) (hfraction : IsDigits fraction)
    {weight : Int} {groups : List Int} (h : Expands (magnitude whole fraction) weight groups) :
    groups.length ≤ (fill whole.length + whole.length) / 4 + (fill fraction.length + fraction.length) / 4 ∧
      weight ≤ ((fill whole.length + whole.length) / 4 : Nat) ∧
        -((fill fraction.length + fraction.length) / 4 : Nat) - 1 ≤ weight := by
  obtain ⟨hgroups, hlength, hvalue⟩ := groupsAround_spec hwhole hfraction
  have hfront : (groupsAround whole fraction).2 = (fill whole.length + whole.length) / 4 := rfl
  rw [hfront] at hlength hvalue
  generalize (fill whole.length + whole.length) / 4 = front at *
  generalize (fill fraction.length + fraction.length) / 4 = back at *
  generalize (groupsAround whole fraction).1 = gs at *
  -- what the number expands to are the groups around its point, without the zeros at both ends
  obtain ⟨rfl, rfl⟩ := h.unique (expands_kept hgroups hvalue rfl rfl)
  have hstripped := (List.dropWhile_suffix (l := gs) (· == 0)).length_le
  have hkept := (List.dropWhile_suffix (l := (gs.dropWhile (· == 0)).reverse) (· == 0)).length_le
  rw [List.length_reverse] at hkept ⊢
  refine ⟨by omega, ?_, ?_⟩ <;> split <;> omega

theorem inRange_of_groupCount {n : Numeral} {cs : List Char} (hwritten : Written n cs) {f : Fields} (h : HasFields n f)
    (hscale : n.fraction.length ≤ 65535) (hgroups : n.groupCount ≤ 32767) : f.InRange := by
  cases h with
  | nan => exact ⟨by decide, by decide, by decide⟩
  | @decimal negative whole fraction groups weight hexpands =>
    obtain ⟨hwhole, hfraction⟩ := hwritten.digits
    -- the digits that count are those left of the number without its outer zeros
    rw [← magnitude_stripped] at hexpands
    have hbounds := hexpands.bounds (fun c hc => hwhole c ((List.dropWhile_suffix _).mem hc))
      (fun c hc => hfraction c ((List.rdropWhile_prefix _ fraction).mem hc))
    rw [Numeral.groupCount] at hgroups
    rw [Numeral.fraction] at hscale
    have hfill : ∀ k, (fill k + k) / 4 = (k + 3) / 4 := fun k => by
      unfold fill
      omega
    rw [hfill, hfill] at hbounds
    exact ⟨by dsimp only; omega, by dsimp only; omega, by dsimp only; omega⟩

/-! ## The canonical text -/

section Decimal

variable {negative : Bool} {whole fraction cs : List Char} {f : Fields}
  (hwritten : Written (.decimal negative whole fraction) cs) (h : HasFields (.decimal negative whole fraction) f)

include h

theorem HasFields.scale_eq : f.scale = fraction.length := by
  cases h with
  | decimal h => rfl

theorem HasFields.expands : Expands (magnitude whole fraction) f.weight f.groups := by
  cases h with
  | decimal h => exact h

theorem HasFields.sign_eq : f.sign = if negative ∧ number (whole ++ fraction) ≠ 0 then signNegative else signPositive := by
  cases h with
  | @decimal _ _ _ groups weight h =>
    have hzero : groups = [] ↔ number (whole ++ fraction) = 0 := by
      have hmagnitude : magnitude whole fraction = 0 ↔ number (whole ++ fraction) = 0 := by
        rw [magnitude, div_eq_zero_iff, or_iff_left (by positivity), Nat.cast_eq_zero]
      rw [← hmagnitude, ← h.value]
      refine ⟨?_, eq_nil_of_value_zero h.group h.last⟩
      rintro rfl
      rfl
    exact if_congr (and_congr_right' (not_congr hzero)) rfl rfl

/-- Without its point, the number is the one of all its digits. -/
theorem HasFields.scaled : groupsValue f.weight f.groups * 10 ^ f.scale = number (whole ++ fraction) := by
  have hpower : (0 : ℚ) < 10 ^ fraction.length := by positivity
  rw [h.expands.value, h.scale_eq, magnitude, div_mul_cancel₀ _ hpower.ne']

theorem HasFields.text_number : (number (f.wholeText ++ f.fractionText) : Int) = number (whole ++ fraction) := by
  rw [(text_parts h.expands.group).2.2, h.scaled, Int.floor_natCast]

include hwritten

theorem text_parts_eq : number f.wholeText = number whole ∧ f.fractionText = fraction := by
  obtain ⟨hdigits, hlength, -⟩ := text_parts h.expands.group
  have hfraction := hwritten.digits.2
  have hsame : number (f.wholeText ++ f.fractionText) = number (whole ++ fraction) := by
    exact_mod_cast h.text_number
  have hscale := hlength.trans h.scale_eq
  -- both texts end in as many digits as the scale says, so the point cuts them alike
  obtain ⟨hfront, hback⟩ := number_split f.wholeText hdigits
  obtain ⟨hfront', hback'⟩ := number_split whole hfraction
  rw [hsame, hscale] at hfront hback
  exact ⟨hfront.symm.trans hfront', eq_of_number hdigits hfraction hscale (hback.symm.trans hback')⟩

omit hwritten

/-- Only zero begins with a zero. -/
theorem head?_wholeText : f.wholeText = ['0'] ∨ f.wholeText.head? ≠ some '0' := by
  have hexpands := h.expands
  rw [Fields.wholeText]
  split
  · exact .inl rfl
  rename_i hweight
  cases hgroups : f.groups with
  | nil =>
    have hzero : f.weight = 0 := hexpands.zero hgroups
    left
    rw [hzero, Fields.group, if_neg (by decide), hgroups]
    rfl
  | cons g gs =>
    have hfirst : f.group 0 = g := by
      rw [Fields.group, if_neg (by decide), hgroups]
      rfl
    have hg := hexpands.group g (by rw [hgroups]; exact List.mem_cons_self)
    -- A number other than zero is stored without groups of zeros in front.
    have hne : g ≠ 0 := fun hzero => hexpands.first (by rw [hgroups, hzero]; rfl)
    right
    rw [hfirst, Text.ofInt, if_neg (by omega)]
    have hhead := Text.head?_ofNat (n := g.natAbs) (by omega)
    obtain ⟨c, cs, hcs⟩ := List.exists_cons_of_ne_nil (Nat.toDigits_ne_nil (b := 10) (n := g.natAbs))
    have hcs : Text.ofNat g.natAbs = c :: cs := hcs
    rw [hcs] at hhead ⊢
    exact hhead

include hwritten

theorem wholeText_eq : f.wholeText = Text.ofNat (number whole) := by
  have hnumber := (text_parts_eq hwritten h).1
  obtain ⟨hdigits, hne⟩ := wholeText_digits h.expands.group
  rw [← hnumber]
  rcases head?_wholeText h with hzero | hhead
  · rw [hzero]
    rfl
  · exact (ofNat_number hdigits hne hhead).symm

end Decimal

/-- The text of the fields of a number is its canonical text. -/
theorem text_of_hasFields {n : Numeral} {cs : List Char} (hwritten : Written n cs) {f : Fields}
    (h : HasFields n f) : f.text = n.canonical := by
  cases n with
  | nan =>
    cases h with
    | nan => rfl
  | decimal negative whole fraction =>
    have hsign := h.sign_eq
    have hscale : (f.scale == 0) = true ↔ fraction = [] := by
      rw [beq_iff_eq, h.scale_eq, List.length_eq_zero_iff]
    rw [Fields.text, Numeral.canonical, wholeText_eq hwritten h, (text_parts_eq hwritten h).2]
    simp only [hscale]
    split at hsign
    · rename_i hminus
      rw [if_pos hminus, hsign]
      rfl
    · rename_i hplus
      rw [if_neg hplus, hsign]
      rfl

/-- The canonical text of a number has its fields. -/
theorem hasFields_text {n : Numeral} {f : Fields} (h : HasFields n f) : ∃ m, Written m f.text ∧ HasFields m f := by
  cases n with
  | nan =>
    cases h with
    | nan => exact ⟨.nan, .nan (by decide), .nan⟩
  | decimal negative whole fraction =>
    have hgroup := h.expands.group
    have hlength := (text_parts hgroup).2.1
    have hmagnitude : magnitude f.wholeText f.fractionText = magnitude whole fraction := by
      have hnumber : number (f.wholeText ++ f.fractionText) = number (whole ++ fraction) := by
        exact_mod_cast h.text_number
      rw [magnitude, magnitude, hnumber, hlength, h.scale_eq]
    have hfields : HasFields (.decimal (f.sign == signNegative) f.wholeText f.fractionText) _ :=
      .decimal (hmagnitude ▸ h.expands)
    have hsign : f.sign ≠ signNaN ∧
        (if (f.sign == signNegative) = true ∧ f.groups ≠ [] then signNegative else signPositive) = f.sign := by
      cases h with
      | decimal =>
        dsimp only
        split
        · rename_i hminus
          exact ⟨by decide, if_pos ⟨rfl, hminus.2⟩⟩
        · exact ⟨by decide, rfl⟩
    rw [hsign.2, hlength] at hfields
    exact ⟨_, text_spec hgroup hsign.1, hfields⟩

/-! ## Round trips -/

theorem HasFields.wellFormed {n : Numeral} {f : Fields} (h : HasFields n f) (hrange : f.InRange) : f.WellFormed := by
  obtain ⟨hgroup, -⟩ := h.spec
  have hcount := hrange.count
  have hvalue : (f.IsFinite ∨ f.sign = signNaN) ∧ ∃ z : Int, groupsValue f.weight f.groups * 10 ^ f.scale = z := by
    cases n with
    | nan =>
      cases h with
      | nan => exact ⟨.inr rfl, 0, by rw [groupsValue, zero_mul, Int.cast_zero]⟩
    | decimal negative whole fraction =>
      have hsign := h.sign_eq
      refine ⟨.inl ?_, number (whole ++ fraction), by rw [h.scaled, Int.cast_natCast]⟩
      split at hsign
      · exact .inr hsign
      · exact .inl hsign
  exact ⟨by omega, hgroup, hrange.weight, hvalue.1.imp_right .inl, hrange.scale, fun _ => hvalue.2⟩

theorem decode?_bytes {n : Numeral} {f : Fields} (h : HasFields n f) (hrange : f.InRange) :
    decode? f.bytes = some (String.ofList f.text) := by
  have hread := read?_bytes (h.wellFormed hrange)
  rw [if_pos hrange.count] at hread
  -- NaN comes back without groups, and has none
  have hself : Fields.read? f.bytes = some f := by
    split at hread
    · rename_i hnan
      cases h with
      | nan => exact hread
      | decimal =>
        dsimp only at hnan
        split at hnan <;> exact absurd hnan (by decide)
    · exact hread
  rw [decode?, hself]
  rfl

/-- A number whose fields fit is decoded to its canonical text, and that text is encoded as the same bytes. -/
theorem decoded_canonical {s : String} {n : Numeral} (h : Reads s n) (hscale : n.fraction.length ≤ 65535)
    (hgroups : n.groupCount ≤ 32767) : ∃ w, encode s = .ok w ∧ decode? w = some (String.ofList n.canonical) ∧
      encode (String.ofList n.canonical) = .ok w := by
  obtain ⟨before, cs, after, -, -, hwritten⟩ := id h
  have hfields := hasFields_ofNumeral hwritten
  have hdecode := decode?_bytes hfields (inRange_of_groupCount hwritten hfields hscale hgroups)
  -- the canonical text has the same fields, and the bytes are made of nothing else
  obtain ⟨m, hm, hmf⟩ := hasFields_text hfields
  rw [text_of_hasFields hwritten hfields] at hdecode hm
  have hreads : Reads (String.ofList n.canonical) m :=
    ⟨[], _, [], by rw [String.toList_ofList, List.append_nil]; rfl, List.forall_mem_nil _, hm⟩
  refine ⟨_, encode_ok_iff.2 ⟨n, h, rfl⟩, hdecode, encode_ok_iff.2 ⟨m, hreads, ?_⟩⟩
  rw [← (hasFields_iff hm).1 hmf]

theorem decoded_canonical_padded : ∃ w, encode " +0012.50" = .ok w ∧ decode? w = some "12.50" ∧
    encode "12.50" = .ok w := by
  have hdigits : IsDigits "0012".toList ∧ IsDigits "50".toList := by
    constructor <;> simp [IsDigits]
  have hreads : Reads " +0012.50" (.decimal false "0012".toList "50".toList) :=
    ⟨[' '], _, [], by decide, by simp [Text.isBlank], .point .plus hdigits.1 hdigits.2 (by decide)⟩
  exact decoded_canonical hreads (by decide) (by decide)

end SpatialQuery.Numeric
