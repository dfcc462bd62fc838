import SpatialQuery.Proofs.Numeric.Fields

/-!
Numbers as they are sent: a header of four numbers of two bytes each, and two bytes for each group. What is
sent for a text holds the fields of its number exactly if each of them fits into two bytes
(`encoded_exact_iff`); what does not fit is sent as another number (`encoded_wrapped`).
-/

namespace SpatialQuery.Numeric

/-! ## Two bytes -/

theorem toNat_ofNat (n : Nat) : Bytes.toNat (Bytes.ofNat 2 n) = n % 65536 :=
  Bytes.toNat_ofNat 2 n

theorem toNat_lt {bs : Bytes} (h : bs.length = 2) : bs.toNat < 65536 := by
  have hlt := Bytes.toNat_lt bs
  rwa [h] at hlt

theorem toInt_eq {bs : Bytes} (h : bs.length = 2) :
    bs.toInt = if bs.toNat < 32768 then (bs.toNat : Int) else bs.toNat - 65536 := by
  rw [Bytes.toInt, h, Bytes.signed]
  change (if 2 * bs.toNat < 65536 then (bs.toNat : Int) else bs.toNat - 65536) = _
  split <;> split <;> omega

theorem toInt_bounds {bs : Bytes} (h : bs.length = 2) : -32768 ≤ bs.toInt ∧ bs.toInt < 32768 := by
  have hlt := toNat_lt h
  rw [toInt_eq h]
  split <;> omega

theorem toInt_ofInt {i : Int} (h : -32768 ≤ i ∧ i < 32768) : Bytes.toInt (Bytes.ofInt 2 i) = i := by
  rw [Bytes.ofInt, toInt_eq (Bytes.length_ofNat 2 _), toNat_ofNat]
  change (if (i % 65536).toNat % 65536 < 32768 then (((i % 65536).toNat % 65536 : Nat) : Int) else
    ((i % 65536).toNat % 65536 : Nat) - 65536) = i
  split <;> omega

theorem toInt_ofNat {n : Nat} (h : n < 32768) : Bytes.toInt (Bytes.ofNat 2 n) = n := by
  rw [toInt_eq (Bytes.length_ofNat 2 _), toNat_ofNat, Nat.mod_eq_of_lt (by omega), if_pos h]

/-! ## The fields in their places -/

/-- The two bytes at a place, which counts from the start of the header. -/
def pairAt (place : Nat) (w : Bytes) : Bytes :=
  (w.drop (2 * place)).take 2

/-- Read as numbers of two bytes, the bytes are these fields. -/
structure Holds (w : Bytes) (f : Fields) : Prop where
  length : w.length = 2 * (4 + f.groups.length)
  count : (pairAt 0 w).toInt = f.groups.length
  weight : (pairAt 1 w).toInt = f.weight
  sign : (pairAt 2 w).toNat = f.sign
  scale : (pairAt 3 w).toNat = f.scale
  group : ∀ i g, f.groups[i]? = some g → (pairAt (4 + i) w).toInt = g

/-- Every number in the header fits into its two bytes. -/
structure Fields.InRange (f : Fields) : Prop where
  count : f.groups.length < 32768
  weight : -32768 ≤ f.weight ∧ f.weight < 32768
  scale : f.scale < 65536

theorem length_pairAt (place : Nat) {w : Bytes} (h : 2 * (place + 1) ≤ w.length) :
    (pairAt place w).length = 2 := by
  rw [pairAt, List.length_take, List.length_drop]
  omega

theorem Holds.inRange {w : Bytes} {f : Fields} (h : Holds w f) : f.InRange := by
  have hlength := h.length
  have hcount := (toInt_bounds (length_pairAt 0 (w := w) (by omega))).2
  have hweight := toInt_bounds (length_pairAt 1 (w := w) (by omega))
  have hscale := toNat_lt (length_pairAt 3 (w := w) (by omega))
  rw [h.count] at hcount
  rw [h.weight] at hweight
  rw [h.scale] at hscale
  exact ⟨by omega, hweight, hscale⟩

/-- The bytes of the groups. -/
def groupBytes (gs : List Int) : Bytes :=
  gs.flatMap (Bytes.ofInt 2)

theorem length_groupBytes (gs : List Int) : (groupBytes gs).length = 2 * gs.length := by
  induction gs with
  | nil => rfl
  | cons g gs ih =>
    rw [groupBytes, List.flatMap_cons, List.length_append, Bytes.ofInt, Bytes.length_ofNat, List.length_cons]
    change 2 + (groupBytes gs).length = _
    omega

theorem pairAt_groupBytes {gs : List Int} {i : Nat} {g : Int} (h : gs[i]? = some g) :
    pairAt i (groupBytes gs) = Bytes.ofInt 2 g := by
  induction gs generalizing i with
  | nil => cases h
  | cons d gs ih =>
    cases i with
    | zero =>
      obtain rfl := Option.some.inj h
      rfl
    | succ i => exact ih h

theorem length_bytes (f : Fields) : f.bytes.length = 2 * (4 + f.groups.length) := by
  have hgroups := length_groupBytes f.groups
  rw [groupBytes] at hgroups
  rw [Fields.bytes, List.length_append, hgroups]
  change 8 + _ = _
  omega

/-- Four-digit groups are always sent as they are. -/
theorem holds_bytes_iff {f : Fields} (hgroups : AreGroups f.groups) (hsign : f.sign < 65536) :
    Holds f.bytes f ↔ f.InRange := by
  refine ⟨Holds.inRange, fun h => ?_⟩
  refine ⟨length_bytes f, toInt_ofNat h.count, toInt_ofInt h.weight, ?_, ?_, fun i g hg => ?_⟩
  · exact (toNat_ofNat f.sign).trans (Nat.mod_eq_of_lt hsign)
  · exact (toNat_ofNat f.scale).trans (Nat.mod_eq_of_lt h.scale)
  · have hplace : pairAt (4 + i) f.bytes = pairAt i (groupBytes f.groups) := by
      rw [pairAt, pairAt, show 2 * (4 + i) = 8 + 2 * i by ring, ← List.drop_drop]
      rfl
    have hrange := hgroups g (List.mem_of_getElem? hg)
    rw [hplace, pairAt_groupBytes hg]
    exact toInt_ofInt (by omega)

/-! ## Encoded texts -/

theorem HasFields.spec {n : Numeral} {f : Fields} (h : HasFields n f) : AreGroups f.groups ∧ f.sign < 65536 := by
  cases h with
  | nan => exact ⟨List.forall_mem_nil _, by decide⟩
  | decimal h =>
    refine ⟨h.group, ?_⟩
    dsimp only
    split <;> decide

/-- The bytes hold the fields of the number that the text writes. -/
def Exact (s : String) (w : Bytes) : Prop :=
  ∃ n f, Reads s n ∧ HasFields n f ∧ Holds w f

/-- What is encoded is the number of the text exactly if its fields fit: at most 32767 groups, a weight of two
bytes with a sign, and at most 65535 digits behind the point. -/
theorem encoded_exact_iff (s : String) : (∀ w, encode s = .ok w → Exact s w) ↔
    ∀ n f, Reads s n → HasFields n f → f.InRange := by
  -- a text writes one number, and a number has one row of fields
  have hfields : ∀ {n f}, Reads s n → HasFields n f → f = Fields.ofNumeral n := by
    rintro n f ⟨before, cs, after, -, -, hwritten⟩ hf
    exact (hasFields_iff hwritten).1 hf
  constructor
  · intro h n f hn hf
    obtain ⟨m, g, hm, hg, hholds⟩ := h _ (encode_ok_iff.2 ⟨n, hn, rfl⟩)
    obtain rfl := hm.unique hn
    rw [hfields hm hf, ← hfields hm hg]
    exact hholds.inRange
  · intro h w hw
    obtain ⟨n, hn, rfl⟩ := encode_ok_iff.1 hw
    obtain ⟨before, cs, after, hs, hblank, hwritten⟩ := id hn
    have hf := hasFields_ofNumeral hwritten
    exact ⟨n, _, hn, hf, (holds_bytes_iff hf.spec.1 hf.spec.2).2 (h n _ hn hf)⟩

/-- The digits behind the point of one half, with zeros at their end. -/
def longHalf (zeros : Nat) : List Char :=
  '5' :: List.replicate zeros '0'

theorem longHalf_fields (zeros : Nat) :
    HasFields (.decimal false ['0'] (longHalf zeros)) ⟨[5000], -1, signPositive, zeros + 1⟩ := by
  have hlength : (longHalf zeros).length = zeros + 1 := by
    rw [longHalf, List.length_cons, List.length_replicate]
  have hnumber : number (['0'] ++ longHalf zeros) = 5 * 10 ^ zeros := by
    rw [List.singleton_append, number_cons, digitValue_zero, Nat.zero_mul, Nat.zero_add, longHalf, number_cons,
      number_zeros, List.length_replicate]
    rfl
  have hexpands : Expands (magnitude ['0'] (longHalf zeros)) (-1) [5000] := by
    refine ⟨by simp [AreGroups], ?_, by decide, by decide, nofun⟩
    rw [magnitude, hnumber, hlength, pow_succ]
    push_cast
    rw [groupsValue, groupsValue]
    field_simp
    norm_num
  have hfields : HasFields (.decimal false ['0'] (longHalf zeros)) _ := .decimal hexpands
  rw [hlength] at hfields
  exact hfields

theorem reads_longHalf (zeros : Nat) :
    Reads (String.ofList ("0.".toList ++ longHalf zeros)) (.decimal false ['0'] (longHalf zeros)) := by
  have hzero : IsDigits ['0'] := List.forall_mem_singleton.2 rfl
  have hdigits : IsDigits (longHalf zeros) := List.forall_mem_cons.2 ⟨rfl, isDigits_zeros _⟩
  have hwritten := Written.point .none hzero hdigits (List.cons_ne_nil _ _)
  exact ⟨[], _, [], by rw [String.toList_ofList, List.append_nil]; rfl, List.forall_mem_nil _, hwritten⟩

/-- The number of digits behind the point does not fit: one half is sent with none of them, and arrives as
zero. -/
theorem encoded_wrapped : ∃ w, encode (String.ofList ("0.".toList ++ longHalf 65535)) = .ok w ∧
    decode? w = some "0" ∧ ¬Exact (String.ofList ("0.".toList ++ longHalf 65535)) w := by
  obtain ⟨before, cs, after, -, -, hwritten⟩ := id (reads_longHalf 65535)
  have hfields := (hasFields_iff hwritten).1 (longHalf_fields 65535)
  refine ⟨_, encode_ok_iff.2 ⟨_, reads_longHalf 65535, rfl⟩, ?_, ?_⟩
  -- the kernel writes the bytes of these fields, not those of the long text
  · rw [← hfields]
    decide +kernel
  · rintro ⟨n, f, hn, hf, hholds⟩
    obtain rfl := hn.unique (reads_longHalf 65535)
    have hscale := hholds.inRange.scale
    rw [hf.unique (longHalf_fields 65535)] at hscale
    exact absurd hscale (by decide)

end SpatialQuery.Numeric
