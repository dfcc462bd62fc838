import SpatialQuery.Proofs.Decimal.Plain
import SpatialQuery.Proofs.Decimal.Rounding
import SpatialQuery.Proofs.Numeric.Texts
import SpatialQuery.Value.Binding
import SpatialQuery.Value.Reading

/-!
Texts without a type, sent to columns of texts. A text that is read as a number is sent as the number is written, and
any other text as it is (`bind_narrowest`).
-/

namespace SpatialQuery.Value

open Decimal
open Numeric (number IsDigits IsSign)

/-! ## Spellings -/

/-- The text writes a number, behind a minus sign if it is negative. -/
def IsSigned (negative : Bool) (cs : List Char) (q : ℚ) : Prop :=
  ∃ ds, cs = (if negative then ['-'] else []) ++ ds ∧ IsPlainDecimal ds q

/-- The sign of a double; that of zero counts. -/
def isNegative (x : Float) : Bool :=
  x.toBits.toNat / 0x8000000000000000 == 1

/-- The shortest decimal of a double without its sign. -/
def IsMagnitude (x : Float) (q : ℚ) : Prop :=
  if (Binary.ofBits x.toBits).mantissa = 0 then q = 0
  else ∃ s : Scaled, (Binary.ofBits x.toBits).IsShortest s ∧ q = s.value

/-- The digits stand for the integer, whatever sign and zeros are in front of it. -/
def IsInteger (cs : List Char) (i : Int) : Prop :=
  ∃ negative sign digits, IsSign negative sign ∧ IsDigits digits ∧ digits ≠ [] ∧ cs = sign ++ digits ∧
    i = if negative then -(number digits : Int) else number digits

/-- What is sent for a text that is read as a value: a number is written anew, and all else stays as it is. -/
def Spelling (s : String) : Value → String → Prop
  | .int i, w => IsInteger s.toList i ∧ IsSigned (i < 0) w.toList i.natAbs
  | .float x, w => ∃ q, IsMagnitude x q ∧ IsSigned (isNegative x) w.toList q
  | .bool _, w | .text _, w => w = s

theorem IsSigned.unique {negative : Bool} {cs ds : List Char} {q : ℚ} (h : IsSigned negative cs q)
    (h' : IsSigned negative ds q) : cs = ds := by
  obtain ⟨cs, rfl, hcs⟩ := h
  obtain ⟨ds, rfl, hds⟩ := h'
  rw [hcs.unique hds]

theorem IsMagnitude.unique {x : Float} {q r : ℚ} (h : IsMagnitude x q) (h' : IsMagnitude x r) : q = r := by
  unfold IsMagnitude at h h'
  split at h
  · rw [if_pos ‹_›] at h'
    rw [h, h']
  · rw [if_neg ‹_›] at h'
    obtain ⟨s, hs, rfl⟩ := h
    obtain ⟨s', hs', rfl⟩ := h'
    rw [hs.unique hs']

theorem Spelling.unique {s w w' : String} {v : Value} (h : Spelling s v w) (h' : Spelling s v w') : w = w' := by
  cases v with
  | int i => exact String.toList_injective (h.2.unique h'.2)
  | float x =>
    obtain ⟨q, hq, hw⟩ := h
    obtain ⟨r, hr, hw'⟩ := h'
    rw [hr.unique hq] at hw'
    exact String.toList_injective (hw.unique hw')
  | bool b => exact h.trans h'.symm
  | text t => exact h.trans h'.symm

/-! ## Integers -/

theorem isSigned_int (i : Int) : IsSigned (i < 0) (toString i).toList i.natAbs := by
  refine ⟨Text.ofNat i.natAbs, ?_, isPlainDecimal_ofNat _⟩
  cases i with
  | ofNat n => exact String.toList_ofList
  | negSucc n =>
    rw [decide_eq_true (Int.negSucc_lt_zero n)]
    change ("-" ++ Nat.repr (n + 1)).toList = '-' :: Text.ofNat (n + 1)
    rw [String.toList_append]
    exact congrArg ('-' :: ·) String.toList_ofList

theorem isInteger_digits {bound : Nat} {e : Text.IntegerError} {negative : Bool} {sign digits : List Char} {i : Int}
    (hsign : IsSign negative sign) (hne : digits ≠ [])
    (h : (Text.readDigits bound e 0 digits).map (fun n => if negative then -Int.ofNat n else Int.ofNat n) = .ok i) :
    IsInteger (sign ++ digits) i := by
  cases hread : Text.readDigits bound e 0 digits with
  | error e' => rw [hread] at h; cases h
  | ok n =>
    obtain ⟨hdigits, hnumber⟩ := Text.readDigits_ok hread
    have hnumber : number digits = n := hnumber
    rw [hread] at h
    refine ⟨negative, sign, digits, hsign, hdigits, hne, rfl, ?_⟩
    rw [hnumber]
    exact (Except.ok.inj h).symm

theorem isInteger_read {low high : Int} {cs : List Char} {i : Int} (h : Text.readInteger low high cs = .ok i) :
    IsInteger cs i := by
  unfold Text.readInteger at h
  split at h
  · cases h
  · cases h
  · cases h
  · rename_i hne
    exact isInteger_digits .plus hne h
  · rename_i hne
    split at h
    · exact isInteger_digits .minus hne h
    · cases h
  · rename_i hne _ _ _ _
    exact isInteger_digits .none hne h

/-! ## Floats -/

theorem isSigned_float {x : Float} (h : x.isFinite = true) :
    ∃ q, IsMagnitude x q ∧ IsSigned (isNegative x) (plain.text x).toList q := by
  obtain ⟨hnan, hinf⟩ := isNaN_isInf_of_isFinite h
  unfold IsMagnitude Style.text
  dsimp only
  rw [hnan, hinf, if_neg Bool.false_ne_true, if_neg Bool.false_ne_true]
  by_cases hzero : (Binary.ofBits x.toBits).mantissa = 0
  · simp only [if_pos hzero, beq_iff_eq.2 hzero, if_true]
    exact ⟨0, rfl, ['0'], String.toList_ofList, by exact_mod_cast isPlainDecimal_ofNat 0⟩
  · have hregular := regular_ofBits (Nat.pos_of_ne_zero hzero)
    have hshortest := isShortest_shortest hregular
    have hpos := (shortest_rounds hregular true).digits_pos hregular.pos
    obtain ⟨k, -, -, hlast⟩ := normalize_shift hpos
    simp only [if_neg hzero, beq_eq_false_iff_ne.2 hzero, Bool.false_eq_true, if_false]
    refine ⟨_, ⟨_, hshortest, rfl⟩, _, ?_, isPlainDecimal_positional hlast⟩
    rw [String.toList_ofList]
    exact congrArg _ (List.append_nil _)

/-! ## Texts without a type -/

theorem isFinite_of_finiteFloat? {cs : List Char} {x : Float} (h : finiteFloat? cs = some x) : x.isFinite = true := by
  unfold finiteFloat? at h
  split at h
  · exact (Option.filter_eq_some_iff.1 h).2
  · cases h

theorem text_of_readBool? {cs : List Char} {b : Bool} (h : Text.readBool? cs = some b) :
    String.ofList cs = asText (.bool b) := by
  unfold Text.readBool? at h
  split at h
  · rename_i htrue
    cases h
    rw [eq_of_beq htrue]
    rfl
  · split at h
    · rename_i hfalse
      cases h
      rw [eq_of_beq hfalse]
      rfl
    · cases h

theorem spelling_asText (s : String) : Spelling s (narrowest s) (narrowest s).asText := by
  unfold narrowest
  dsimp only
  split
  · rename_i i hread
    have hread : Text.readInt64 s.toList = .ok i := by
      cases h : Text.readInt64 s.toList with
      | error e => rw [h] at hread; cases hread
      | ok j => rw [h] at hread; cases hread; rfl
    exact ⟨isInteger_read hread, isSigned_int i⟩
  · exact isSigned_float (isFinite_of_finiteFloat? ‹_›)
  · have htext := text_of_readBool? ‹_›
    rw [String.ofList_toList] at htext
    exact htext.symm
  · rfl

theorem bind_isText {t : SqlType} (ht : t.isText = true) (v : Value) : v.bind t = .ok (.ofString v.asText) := by
  unfold SqlType.isText at ht
  split at ht
  · cases v <;> rfl
  · cases v <;> rfl
  · cases v <;> rfl
  · cases ht

/-- A text without a type is sent as it is, unless it is read as a number: then it is sent as the number is written. -/
theorem bind_narrowest (s : String) {t : SqlType} (ht : t.isText = true) :
    (∃ w, (narrowest s).bind t = .ok (.ofString w)) ∧
      ∀ w, (narrowest s).bind t = .ok (.ofString w) ↔ Spelling s (narrowest s) w := by
  have hbind := bind_isText ht (narrowest s)
  have hspelling := spelling_asText s
  refine ⟨⟨_, hbind⟩, fun w => ⟨fun h => ?_, fun h => ?_⟩⟩
  · rw [hbind] at h
    rwa [← Bytes.ofString_injective (Except.ok.inj h)]
  · rw [hbind, hspelling.unique h]

theorem bind_narrowest_negative : SqlType.isText .varchar = true ∧
    (narrowest "-42").bind .varchar = .ok (.ofString "-42") := by
  have hread : narrowest "-42" = .int (-42) := rfl
  have hspelling : Spelling "-42" (narrowest "-42") "-42" := by
    rw [hread]
    exact ⟨⟨true, ['-'], ['4', '2'], .minus, by simp [IsDigits], by simp, rfl, rfl⟩, isSigned_int (-42)⟩
  exact ⟨rfl, ((bind_narrowest "-42" rfl).2 "-42").2 hspelling⟩

/-- Zeros in front of an integer are not sent. -/
theorem zeros_not_sent : (narrowest "007").bind .text ≠ .ok (.ofString "007") := by
  have hread : narrowest "007" = .int 7 := rfl
  intro h
  rw [hread, bind_isText rfl] at h
  have htext := Bytes.ofString_injective (Except.ok.inj h)
  exact absurd htext (by decide)

example : (narrowest "1e3").asText = "1000" := by decide +kernel

end SpatialQuery.Value
