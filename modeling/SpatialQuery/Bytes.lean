/-!
Numbers as bytes, the most significant byte first, and bytes as hexadecimal text.
-/

namespace SpatialQuery

abbrev Bytes := List UInt8

namespace Bytes

/-- The last `width` bytes of a number. -/
def ofNat : (width : Nat) → Nat → Bytes
  | 0, _ => []
  | width + 1, n => ofNat width (n / 256) ++ [UInt8.ofNat n]

def toNat (bs : Bytes) : Nat :=
  bs.foldl (fun n b => 256 * n + b.toNat) 0

/-- Negative numbers are written as two's complement. -/
def ofInt (width : Nat) (i : Int) : Bytes :=
  ofNat width (i % Nat.pow 256 width).toNat

/-- The number in a range of width `size` of which `n` is a residue, half of the range being
negative. -/
def signed (size n : Nat) : Int :=
  if 2 * n < size then n else (n : Int) - size

def toInt (bs : Bytes) : Int :=
  signed (Nat.pow 256 bs.length) bs.toNat

theorem length_ofNat (width n : Nat) : (ofNat width n).length = width := by
  induction width generalizing n with
  | zero => rfl
  | succ width ih => simp [ofNat, ih]

theorem toNat_concat (bs : Bytes) (b : UInt8) : toNat (bs ++ [b]) = 256 * toNat bs + b.toNat := by
  simp [toNat]

theorem toNat_lt (bs : Bytes) : bs.toNat < Nat.pow 256 bs.length := by
  rcases List.eq_nil_or_concat bs with rfl | ⟨init, b, rfl⟩
  · decide
  · have hinit := toNat_lt init
    have hb := b.toNat_lt
    rw [List.concat_eq_append, toNat_concat, List.length_append, List.length_singleton, Nat.pow_eq, Nat.pow_succ]
    rw [Nat.pow_eq] at hinit
    omega
termination_by bs.length
decreasing_by simp_all

theorem toNat_ofNat (width n : Nat) : toNat (ofNat width n) = n % Nat.pow 256 width := by
  induction width generalizing n with
  | zero => simp [ofNat, toNat, Nat.mod_one]
  | succ width ih =>
    have hbyte : (UInt8.ofNat n).toNat = n % 256 := UInt8.toNat_ofNat'
    rw [ofNat, toNat_concat, ih, hbyte, Nat.pow_eq, Nat.pow_eq, Nat.pow_succ, Nat.mul_comm (256 ^ width) 256,
      Nat.mod_mul]
    omega

theorem ofNat_toNat {width : Nat} {bs : Bytes} (h : bs.length = width) : ofNat width bs.toNat = bs := by
  induction width generalizing bs with
  | zero => rw [List.eq_nil_of_length_eq_zero h, ofNat]
  | succ width ih =>
    rcases List.eq_nil_or_concat bs with rfl | ⟨init, b, rfl⟩
    · cases h
    · rw [List.concat_eq_append, List.length_append, List.length_singleton] at h
      have hb := b.toNat_lt
      have hinit : (256 * toNat init + b.toNat) / 256 = toNat init := by omega
      have hlast : UInt8.ofNat (256 * toNat init + b.toNat) = b := by
        apply UInt8.toNat_inj.1
        rw [UInt8.toNat_ofNat']
        omega
      rw [List.concat_eq_append, toNat_concat, ofNat, hinit, hlast, ih (by omega)]

/-! ## Hexadecimal text -/

def hexDigits : List Char := "0123456789ABCDEF".toList

def hexChars (b : UInt8) : List Char :=
  [hexDigits.getD (b.toNat / 16) '0', hexDigits.getD (b.toNat % 16) '0']

/-- Two digits for every byte. -/
def toHex (bs : Bytes) : String :=
  String.ofList (bs.flatMap hexChars)

/-- The value of a hexadecimal digit, in upper or lower case. -/
def hexValue? (c : Char) : Option Nat :=
  if c.isDigit then some (c.toNat - '0'.toNat)
  else if 'a' ≤ c && c ≤ 'f' then some (c.toNat - 'a'.toNat + 10)
  else if 'A' ≤ c && c ≤ 'F' then some (c.toNat - 'A'.toNat + 10)
  else none

def readHex? : List Char → Option Bytes
  | [] => some []
  | [_] => none
  | a :: b :: cs =>
    match hexValue? a, hexValue? b, readHex? cs with
    | some x, some y, some bs => some (UInt8.ofNat (16 * x + y) :: bs)
    | _, _, _ => none

def ofHex? (s : String) : Option Bytes :=
  readHex? s.toList

theorem hexValue?_hexDigits : ∀ n < 16, hexValue? (hexDigits.getD n '0') = some n := by
  decide

/-! ## Text -/

/-- The bytes of a text in UTF-8. -/
def ofString (s : String) : Bytes :=
  s.toUTF8.data.toList

def toString? (bs : Bytes) : Option String :=
  String.fromUTF8? bs.toByteArray

theorem ofString_append (s t : String) : ofString (s ++ t) = ofString s ++ ofString t := by
  simp [ofString, String.toUTF8]

theorem ofString_injective {s t : String} (h : ofString s = ofString t) : s = t := by
  have hdata : s.toByteArray.data = t.toByteArray.data := Array.toList_inj.1 h
  exact String.toByteArray_inj.1 (ByteArray.ext hdata)

end Bytes

end SpatialQuery
