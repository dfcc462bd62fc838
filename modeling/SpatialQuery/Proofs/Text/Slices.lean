import SpatialQuery.Bytes
import SpatialQuery.Token.Scan

/-!
Parts of a text between offsets in its bytes. An offset that lies outside of the text or inside of a character gives no
part (`slice?`); the offsets at which a text is put together from parts give these parts (`slice?_append`).
-/

namespace SpatialQuery.Text

/-! ## Bytes of characters -/

/-- The characters in UTF-8. -/
def encode (cs : List Char) : Bytes :=
  cs.flatMap String.utf8EncodeChar

theorem encode_cons (c : Char) (cs : List Char) : encode (c :: cs) = String.utf8EncodeChar c ++ encode cs := rfl

theorem encode_append (cs ds : List Char) : encode (cs ++ ds) = encode cs ++ encode ds :=
  List.flatMap_append

theorem ofString_ofList (cs : List Char) : Bytes.ofString (String.ofList cs) = encode cs := by
  rw [Bytes.ofString, String.toUTF8, String.toByteArray_ofList, List.utf8Encode, List.data_toByteArray,
    List.toList_toArray]
  rfl

@[simp] theorem byteSize_nil : Scan.byteSize [] = 0 := rfl

theorem byteSize_cons (c : Char) (cs : List Char) : Scan.byteSize (c :: cs) = c.utf8Size + Scan.byteSize cs := rfl

theorem byteSize_append (cs ds : List Char) : Scan.byteSize (cs ++ ds) = Scan.byteSize cs + Scan.byteSize ds := by
  induction cs with
  | nil => exact (Nat.zero_add _).symm
  | cons c cs ih => rw [List.cons_append, byteSize_cons, byteSize_cons, ih, Nat.add_assoc]

theorem length_encode (cs : List Char) : (encode cs).length = Scan.byteSize cs := by
  induction cs with
  | nil => rfl
  | cons c cs ih => rw [encode_cons, List.length_append, String.length_utf8EncodeChar, ih, byteSize_cons]

theorem utf8ByteSize_ofList (cs : List Char) : (String.ofList cs).utf8ByteSize = Scan.byteSize cs := by
  rw [← length_encode, ← ofString_ofList]
  rfl

/-- One byte for each character of ASCII. -/
theorem utf8EncodeChar_ascii {c : Char} (h : c.toNat < 128) :
    String.utf8EncodeChar c = [c.toUInt8] ∧ c.utf8Size = 1 := by
  have hone : c.utf8Size = 1 := by
    rw [Char.utf8Size_eq_one_iff, UInt32.le_iff_toNat_le]
    exact Nat.le_of_lt_succ h
  exact ⟨String.utf8EncodeChar_eq_singleton hone, hone⟩

/-- No byte of another character is one of ASCII. -/
theorem utf8EncodeChar_wide {c : Char} (h : 128 ≤ c.toNat) : ∀ b ∈ String.utf8EncodeChar c, 128 ≤ b.toNat := by
  have hv : 128 ≤ c.val.toNat := h
  have hmax : c.val.toNat < 0x110000 := by
    rcases c.valid with hc | hc
    · omega
    · exact hc.2
  unfold String.utf8EncodeChar
  dsimp only
  rw [if_neg (by omega)]
  split
  · simp only [List.mem_cons, List.not_mem_nil, or_false, forall_eq_or_imp, forall_eq, UInt8.toNat_ofNat']
    omega
  · split
    · simp only [List.mem_cons, List.not_mem_nil, or_false, forall_eq_or_imp, forall_eq, UInt8.toNat_ofNat']
      omega
    · simp only [List.mem_cons, List.not_mem_nil, or_false, forall_eq_or_imp, forall_eq, UInt8.toNat_ofNat']
      omega

/-! ## Slices -/

/-- The offset is the beginning of a character or the end of the text. -/
def IsBoundary (s : String) (offset : Nat) : Prop :=
  (⟨offset⟩ : String.Pos.Raw).IsValid s

instance (s : String) (offset : Nat) : Decidable (IsBoundary s offset) :=
  inferInstanceAs (Decidable ((⟨offset⟩ : String.Pos.Raw).IsValid s))

/-- The part between two offsets, which must be boundaries in their order. -/
def slice? (s : String) (start stop : Nat) : Option String :=
  if start ≤ stop ∧ IsBoundary s start ∧ IsBoundary s stop then
    Bytes.toString? (((Bytes.ofString s).take stop).drop start)
  else none

/-- The text with another part between two offsets. -/
def replaceRange? (s : String) (start stop : Nat) (part : String) : Option String := do
  let before ← slice? s 0 start
  let _ ← slice? s start stop
  let behind ← slice? s stop s.utf8ByteSize
  return before ++ part ++ behind

/-- The difference of two offsets, which are in their order. -/
def distance? (start stop : Nat) : Option Nat :=
  if start ≤ stop then some (stop - start) else none

theorem toString?_encode (cs : List Char) : Bytes.toString? (encode cs) = some (String.ofList cs) := by
  have hvalid : (encode cs).toByteArray.IsValidUTF8 := ⟨cs, rfl⟩
  rw [Bytes.toString?, String.fromUTF8?, dif_pos hvalid]
  refine congrArg some (String.toByteArray_inj.1 ?_)
  rw [String.toByteArray_ofList]
  rfl

theorem isBoundary_append (cs ds : List Char) : IsBoundary (String.ofList (cs ++ ds)) (Scan.byteSize cs) := by
  rw [IsBoundary, String.Pos.Raw.isValid_iff_exists_append]
  refine ⟨String.ofList cs, String.ofList ds, String.ofList_append, ?_⟩
  rw [String.rawEndPos, utf8ByteSize_ofList]

theorem slice?_append (cs ds es : List Char) :
    slice? (String.ofList (cs ++ (ds ++ es))) (Scan.byteSize cs) (Scan.byteSize cs + Scan.byteSize ds) =
      some (String.ofList ds) := by
  have hstop := isBoundary_append (cs ++ ds) es
  rw [List.append_assoc, byteSize_append] at hstop
  rw [slice?, if_pos ⟨Nat.le_add_right _ _, isBoundary_append cs _, hstop⟩, ← toString?_encode, ofString_ofList,
    encode_append, encode_append, ← length_encode, ← length_encode, List.drop_take, Nat.add_sub_cancel_left,
    List.drop_left, List.take_left]

theorem replaceRange?_append (cs ds es part : List Char) :
    replaceRange? (String.ofList (cs ++ (ds ++ es))) (Scan.byteSize cs) (Scan.byteSize cs + Scan.byteSize ds)
      (String.ofList part) = some (String.ofList (cs ++ (part ++ es))) := by
  have hbefore := slice?_append [] cs (ds ++ es)
  have hreplaced := slice?_append cs ds es
  have hbehind := slice?_append (cs ++ ds) es []
  rw [List.nil_append, byteSize_nil, Nat.zero_add] at hbefore
  rw [List.append_nil, List.append_assoc, byteSize_append] at hbehind
  have hsize : (String.ofList (cs ++ (ds ++ es))).utf8ByteSize =
      Scan.byteSize cs + Scan.byteSize ds + Scan.byteSize es := by
    rw [utf8ByteSize_ofList, byteSize_append, byteSize_append, Nat.add_assoc]
  rw [replaceRange?, hbefore, hreplaced, hsize, hbehind, String.ofList_append, String.ofList_append,
    ← String.append_assoc]
  rfl

end SpatialQuery.Text
