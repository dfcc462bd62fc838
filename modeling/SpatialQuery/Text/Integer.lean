/-!
Reading integers that must lie in a range. The text is judged character by character from the left,
so the first character that is no digit, or that takes the value out of the range, decides the error.
-/

namespace SpatialQuery.Text

inductive IntegerError where
  | empty
  | invalidDigit
  | tooLarge
  | tooSmall
  deriving DecidableEq, Repr

def IntegerError.message : IntegerError → String
  | .empty => "cannot parse integer from empty string"
  | .invalidDigit => "invalid digit found in string"
  | .tooLarge => "number too large to fit in target type"
  | .tooSmall => "number too small to fit in target type"

/-- The value of a decimal digit. -/
def digitValue (c : Char) : Nat :=
  c.toNat - '0'.toNat

/-- Reads digits up to `bound`; `outside` is the error of a value above it. -/
def readDigits (bound : Nat) (outside : IntegerError) (n : Nat) : List Char → Except IntegerError Nat
  | [] => .ok n
  | c :: cs =>
    if !c.isDigit then .error .invalidDigit
    else if bound < 10 * n + digitValue c then .error outside
    else readDigits bound outside (10 * n + digitValue c) cs

/-- Reads an integer between `low` and `high`, with an optional sign; a minus sign needs a negative
`low`. -/
def readInteger (low high : Int) (cs : List Char) : Except IntegerError Int :=
  match cs with
  | [] => .error .empty
  | ['+'] | ['-'] => .error .invalidDigit
  | '+' :: digits => (readDigits high.toNat .tooLarge 0 digits).map Int.ofNat
  | '-' :: digits =>
    if low < 0 then (readDigits (-low).toNat .tooSmall 0 digits).map fun n => -Int.ofNat n
    else .error .invalidDigit
  | digits => (readDigits high.toNat .tooLarge 0 digits).map Int.ofNat

/-- The integers of 16, 32 and 64 bits. -/
def readInt16 : List Char → Except IntegerError Int := readInteger (-0x8000) 0x7FFF

def readInt32 : List Char → Except IntegerError Int := readInteger (-0x80000000) 0x7FFFFFFF

def readInt64 : List Char → Except IntegerError Int := readInteger (-0x8000000000000000) 0x7FFFFFFFFFFFFFFF

/-- The largest natural number of 64 bits. -/
def maxNat64 : Nat := UInt64.size - 1

def readNat64 (cs : List Char) : Except IntegerError Nat :=
  (readInteger 0 maxNat64 cs).map Int.toNat

/-- The decimal digits of a number. -/
def ofNat (n : Nat) : List Char :=
  Nat.toDigits 10 n

def ofInt (i : Int) : List Char :=
  if i < 0 then '-' :: ofNat i.natAbs else ofNat i.natAbs

theorem readDigits_ok {bound n v : Nat} {outside : IntegerError} {cs : List Char}
    (h : readDigits bound outside n cs = .ok v) : (∀ c ∈ cs, c.isDigit = true) ∧
      cs.foldl (fun n c => 10 * n + digitValue c) n = v := by
  fun_induction readDigits bound outside n cs with
  | case1 => cases h; exact ⟨by simp, rfl⟩
  | case2 => cases h
  | case3 => cases h
  | case4 n c cs hd _ ih =>
    obtain ⟨hcs, hv⟩ := ih h
    rw [Bool.not_eq_true', Bool.not_eq_false] at hd
    exact ⟨by simpa using ⟨hd, hcs⟩, hv⟩

theorem le_foldl_digits (n : Nat) (cs : List Char) :
    n ≤ cs.foldl (fun n c => 10 * n + digitValue c) n := by
  induction cs generalizing n with
  | nil => exact Nat.le_refl n
  | cons c cs ih =>
    have h := ih (10 * n + digitValue c)
    rw [List.foldl_cons]
    omega

theorem digitValue_le {c : Char} (h : c.isDigit = true) : digitValue c ≤ 9 :=
  Nat.sub_le_sub_right (Char.isDigit_iff_toNat.1 h).2 48

/-- Digits whose value is in the range are read. -/
theorem readDigits_of_le {bound n : Nat} {outside : IntegerError} {cs : List Char}
    (hcs : ∀ c ∈ cs, c.isDigit = true)
    (h : cs.foldl (fun n c => 10 * n + digitValue c) n ≤ bound) :
    readDigits bound outside n cs = .ok (cs.foldl (fun n c => 10 * n + digitValue c) n) := by
  induction cs generalizing n with
  | nil => rfl
  | cons c cs ih =>
    rw [List.forall_mem_cons] at hcs
    rw [List.foldl_cons] at h ⊢
    have hle := Nat.le_trans (le_foldl_digits _ cs) h
    simp only [readDigits, hcs.1, Bool.not_true, Bool.false_eq_true, ↓reduceIte, Nat.not_lt.2 hle]
    exact ih hcs.2 h

/-- Without a sign, all characters are digits. -/
theorem readInteger_of_head {low high : Int} {c : Char} {cs : List Char} (hp : c ≠ '+') (hm : c ≠ '-') :
    readInteger low high (c :: cs) = (readDigits high.toNat .tooLarge 0 (c :: cs)).map Int.ofNat := by
  unfold readInteger
  split
  · rename_i h; cases h
  · rename_i h; exact absurd (List.cons.inj h).1 hp
  · rename_i h; exact absurd (List.cons.inj h).1 hm
  · rename_i h; exact absurd (List.cons.inj h).1 hp
  · rename_i h; exact absurd (List.cons.inj h).1 hm
  · rfl

theorem readNat64_of_head {c : Char} {cs : List Char} (hp : c ≠ '+') (hm : c ≠ '-') :
    readNat64 (c :: cs) = readDigits maxNat64 .tooLarge 0 (c :: cs) := by
  rw [readNat64, readInteger_of_head hp hm, Int.toNat_natCast]
  cases readDigits maxNat64 .tooLarge 0 (c :: cs) <;> rfl

theorem isDigit_ofNat {n : Nat} : ∀ c ∈ ofNat n, c.isDigit = true := fun _ =>
  Nat.isDigit_of_mem_toDigits (by decide) (by decide)

theorem foldl_ofNat (n : Nat) : (ofNat n).foldl (fun n c => 10 * n + digitValue c) 0 = n :=
  Nat.ofDigitChars_ten_toDigits

theorem head?_ofNat {n : Nat} (h : 0 < n) : (ofNat n).head? ≠ some '0' := by
  induction n using Nat.strongRecOn with
  | ind n ih =>
    by_cases hn : n < 10
    · rw [ofNat, Nat.toDigits_of_lt_base hn, List.head?_cons, ne_eq, Option.some.injEq,
        Nat.digitChar_eq_zero]
      omega
    · have hrest := ih (n / 10) (by omega) (by omega)
      rw [ofNat] at hrest ⊢
      rw [Nat.toDigits_of_base_le (by decide) (by omega), List.head?_append]
      cases hds : Nat.toDigits 10 (n / 10) with
      | nil => exact absurd hds Nat.toDigits_ne_nil
      | cons d ds =>
        rw [hds] at hrest
        exact hrest

theorem ofNat_eq_cons (n : Nat) : ∃ c cs, ofNat n = c :: cs ∧ c.isDigit = true := by
  have hdigit := isDigit_ofNat (n := n)
  cases hcs : ofNat n with
  | nil => exact absurd hcs Nat.toDigits_ne_nil
  | cons c cs =>
    rw [hcs] at hdigit
    exact ⟨c, cs, rfl, hdigit c List.mem_cons_self⟩

theorem readDigits_ofNat {bound n : Nat} (outside : IntegerError) (h : n ≤ bound) :
    readDigits bound outside 0 (ofNat n) = .ok n := by
  have hread : readDigits bound outside 0 (ofNat n) = .ok _ :=
    readDigits_of_le isDigit_ofNat (by rwa [foldl_ofNat])
  rwa [foldl_ofNat] at hread

/-- Integers in the range are read back. -/
theorem readInteger_ofInt {low high i : Int} (hlow : low ≤ i) (hhigh : i ≤ high) :
    readInteger low high (ofInt i) = .ok i := by
  obtain ⟨c, cs, hcs, hc⟩ := ofNat_eq_cons i.natAbs
  rw [ofInt]
  split
  · have hread : readDigits (-low).toNat .tooSmall 0 (ofNat i.natAbs) = .ok i.natAbs :=
      readDigits_ofNat _ (by omega)
    rw [hcs] at hread ⊢
    rw [readInteger]
    · rw [if_pos (by omega), hread, Except.map, Int.ofNat_eq_natCast]
      exact congrArg Except.ok (by omega)
    · exact fun h => by cases h
  · have hne : ∀ d, d.isDigit = false → c ≠ d := by
      rintro d hd rfl
      rw [hc] at hd
      cases hd
    have hread : readDigits high.toNat .tooLarge 0 (ofNat i.natAbs) = .ok i.natAbs :=
      readDigits_ofNat _ (by omega)
    rw [hcs] at hread ⊢
    rw [readInteger_of_head (hne '+' rfl) (hne '-' rfl), hread, Except.map, Int.ofNat_eq_natCast]
    exact congrArg Except.ok (by omega)

theorem ofNat_injective {m n : Nat} (h : ofNat m = ofNat n) : m = n := by
  have hm := Nat.ofDigitChars_ten_toDigits (n := m)
  have hn := Nat.ofDigitChars_ten_toDigits (n := n)
  rw [← hm, ← hn]
  exact congrArg (Nat.ofDigitChars 10 · 0) h

end SpatialQuery.Text
