import SpatialQuery.Bytes

/-!
Percent-encoding: a byte is written as a percent sign and two hexadecimal digits.
-/

namespace SpatialQuery.Percent

/-- Controls and characters outside ASCII are always encoded. -/
def isUnsafe (c : Char) : Bool :=
  c.toNat < 0x20 || 0x7F ≤ c.toNat

def byteText (b : UInt8) : List Char :=
  '%' :: Bytes.hexChars b

def encodeChar (reserved : List Char) (c : Char) : List Char :=
  if isUnsafe c || reserved.contains c then
    (Bytes.ofString (String.singleton c)).flatMap byteText
  else [c]

/-- Encodes what is unsafe and what is reserved. -/
def encode (reserved : List Char) (cs : List Char) : List Char :=
  cs.flatMap (encodeChar reserved)

/-- The bytes of a text. A percent sign that does not stand before two digits means itself. -/
def decode : List Char → Bytes
  | [] => []
  | '%' :: a :: b :: cs =>
    match Bytes.hexValue? a, Bytes.hexValue? b with
    | some x, some y => UInt8.ofNat (16 * x + y) :: decode cs
    | _, _ => UInt8.ofNat '%'.toNat :: decode (a :: b :: cs)
  | c :: cs => Bytes.ofString (String.singleton c) ++ decode cs

def decode? (cs : List Char) : Option String :=
  Bytes.toString? (decode cs)

/-- Letters, digits and a few marks stand for themselves in a form, and a plus sign for a space. -/
def encodeFormChar (c : Char) : List Char :=
  if c == ' ' then ['+']
  else if c.isAlphanum || ['*', '-', '.', '_'].contains c then [c]
  else (Bytes.ofString (String.singleton c)).flatMap byteText

def encodeForm (cs : List Char) : List Char :=
  cs.flatMap encodeFormChar

theorem encodeChar_safe {reserved : List Char} {c : Char} (hc : isUnsafe c = false)
    (hr : c ∉ reserved) : encodeChar reserved c = [c] := by
  simp [encodeChar, hc, hr]

theorem encode_safe {reserved cs : List Char} (hc : ∀ c ∈ cs, isUnsafe c = false ∧ c ∉ reserved) :
    encode reserved cs = cs := by
  induction cs with
  | nil => rfl
  | cons c cs ih =>
    have h := hc c List.mem_cons_self
    have ih := ih fun d hd => hc d (List.mem_cons_of_mem _ hd)
    simp only [encode] at ih ⊢
    rw [List.flatMap_cons, encodeChar_safe h.1 h.2, ih, List.singleton_append]

theorem printable_of_safe {c : Char} (h : isUnsafe c = false) : 0x20 ≤ c.toNat ∧ c.toNat < 0x7F := by
  simpa [isUnsafe] using h

theorem printable_byteText (b : UInt8) : ∀ c ∈ byteText b, c = '%' ∨ c ∈ Bytes.hexDigits := by
  have hb := b.toNat_lt
  have hdigit : ∀ n < 16, Bytes.hexDigits.getD n '0' ∈ Bytes.hexDigits := by decide
  refine List.forall_mem_cons.2 ⟨.inl rfl, List.forall_mem_cons.2 ⟨.inr (hdigit _ (by omega)), ?_⟩⟩
  exact List.forall_mem_singleton.2 (.inr (hdigit _ (by omega)))

/-- A character of an encoded text is safe and not reserved, or belongs to an encoded byte. -/
theorem mem_encode {reserved cs : List Char} {c : Char} (hc : c ∈ encode reserved cs) :
    isUnsafe c = false ∧ c ∉ reserved ∨ c = '%' ∨ c ∈ Bytes.hexDigits := by
  obtain ⟨d, -, hd⟩ := List.mem_flatMap.1 hc
  unfold encodeChar at hd
  split at hd
  · obtain ⟨b, -, hb⟩ := List.mem_flatMap.1 hd
    exact .inr (printable_byteText b c hb)
  · rename_i hsafe
    obtain rfl := List.mem_singleton.1 hd
    simp only [Bool.or_eq_true, List.contains_iff_mem, not_or, Bool.not_eq_true] at hsafe
    exact .inl hsafe

/-! ## Decoding -/

theorem decode_byteText (b : UInt8) (cs : List Char) : decode (byteText b ++ cs) = b :: decode cs := by
  have hb := b.toNat_lt
  have hsplit : 16 * (b.toNat / 16) + b.toNat % 16 = b.toNat := Nat.div_add_mod _ _
  rw [byteText, Bytes.hexChars, List.cons_append, List.cons_append, List.cons_append, List.nil_append, decode,
    Bytes.hexValue?_hexDigits _ (by omega), Bytes.hexValue?_hexDigits _ (by omega)]
  dsimp only
  rw [hsplit, UInt8.ofNat_toNat]

theorem decode_bytes (bs : Bytes) (cs : List Char) : decode (bs.flatMap byteText ++ cs) = bs ++ decode cs := by
  induction bs with
  | nil => rfl
  | cons b bs ih => rw [List.flatMap_cons, List.append_assoc, decode_byteText, ih, List.cons_append]

theorem decode_encodeChar {reserved : List Char} (h : '%' ∈ reserved) (c : Char) (cs : List Char) :
    decode (encodeChar reserved c ++ cs) = Bytes.ofString (String.singleton c) ++ decode cs := by
  unfold encodeChar
  split
  · exact decode_bytes _ cs
  · rename_i hsafe
    rw [List.singleton_append, decode]
    rintro a b ds rfl
    simp [h] at hsafe

/-- What is encoded is decoded again, if the percent sign is encoded too. -/
theorem decode_encode {reserved : List Char} (h : '%' ∈ reserved) (cs : List Char) :
    decode (encode reserved cs) = Bytes.ofString (String.ofList cs) := by
  induction cs with
  | nil => rfl
  | cons c cs ih =>
    rw [encode, List.flatMap_cons, decode_encodeChar h, String.ofList_cons, Bytes.ofString_append, ← ih]
    rfl

theorem encode_injective {reserved : List Char} (h : '%' ∈ reserved) {cs ds : List Char}
    (he : encode reserved cs = encode reserved ds) : cs = ds := by
  have hdecode := congrArg decode he
  rw [decode_encode h, decode_encode h] at hdecode
  exact String.ofList_injective (Bytes.ofString_injective hdecode)

end SpatialQuery.Percent
