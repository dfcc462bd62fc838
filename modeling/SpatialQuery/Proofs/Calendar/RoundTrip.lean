import Mathlib.Data.Nat.Digits.Defs
import SpatialQuery.Calendar.Reading
import SpatialQuery.Proofs.Calendar.Days

/-!
Times in UTC are read as they were written (`readLooseUtc?_utcText`), if they are no leap seconds and their year is
supported (`DateTime.Regular`).
-/

namespace SpatialQuery.Calendar

/-! ## Numbers -/

/-- Digits that have this value. -/
structure Digits (n : Nat) (ds : List Char) : Prop where
  ne_nil : ds ≠ []
  digit : ∀ c ∈ ds, c.isDigit = true
  value : digitsValue ds = n

theorem digits_padded (width n : Nat) : Digits n (padded width n) := by
  refine ⟨?_, ?_, ?_⟩
  · exact List.append_ne_nil_of_right_ne_nil _ Nat.toDigits_ne_nil
  · intro c hc
    rcases List.mem_append.1 hc with hc | hc
    · rw [List.eq_of_mem_replicate hc]
      rfl
    · exact Text.isDigit_ofNat c hc
  · have hzeros : ∀ k : Nat, (List.replicate k '0').foldl (fun n c => 10 * n + Text.digitValue c) 0 = 0 := by
      intro k
      induction k with
      | zero => rfl
      | succ k ih => exact ih
    rw [digitsValue, padded, List.leftpad, List.foldl_append, hzeros, Text.foldl_ofNat]

theorem length_padded {width n : Nat} (hw : 0 < width) (hn : n < 10 ^ width) : (padded width n).length = width := by
  have hlength : (Text.ofNat n).length ≤ width := Nat.toDigits_length 10 n width hw hn
  rw [padded, List.leftpad, List.length_append, List.length_replicate]
  omega

theorem isBlank_digit {c : Char} (h : c.isDigit = true) : Text.isBlank c = false := by
  have hrange : 48 ≤ c.toNat ∧ c.toNat ≤ 57 := by
    simpa [Char.isDigit, UInt32.le_iff_toNat_le] using h
  simp [Text.isBlank]
  omega

section Numbers

variable {n : Nat} {ds : List Char}

/-- The digits are as many as there may be, or no digit follows them. -/
theorem takeNumber?_digits (h : Digits n ds) {bound : Nat} {rest : List Char}
    (hbound : ds.length = bound ∨ ds.length ≤ bound ∧ ∀ c ∈ rest.head?, c.isDigit = false) :
    takeNumber? bound (ds ++ rest) = some (n, rest) := by
  have hstop : (rest.take (bound - ds.length)).takeWhile Char.isDigit = [] := by
    rcases hbound with rfl | ⟨-, hrest⟩
    · rw [Nat.sub_self]
      rfl
    · cases rest with
      | nil => rw [List.take_nil]; rfl
      | cons c rest =>
        cases bound - ds.length with
        | zero => rfl
        | succ k => rw [List.take_succ_cons, List.takeWhile_cons_of_neg (by simp [hrest c rfl])]
  have htake : ((ds ++ rest).take bound).takeWhile Char.isDigit = ds := by
    rw [List.take_append, List.take_of_length_le (by omega), List.takeWhile_append_of_pos h.digit, hstop,
      List.append_nil]
  rw [takeNumber?, htake, List.isEmpty_eq_false_iff.2 h.ne_nil, if_neg Bool.false_ne_true, h.value, List.drop_left]

/-- A number without a sign. -/
theorem takeField?_digits (h : Digits n ds) {f : Field} {rest : List Char}
    (hbound : ds.length = f.width) : takeField? f (ds ++ rest) = some ((n : Int), rest) := by
  have hread : takeNumber? f.width (ds ++ rest) = _ := takeNumber?_digits h (.inl hbound)
  obtain ⟨d, ds, rfl⟩ := List.exists_cons_of_ne_nil h.ne_nil
  have hd := h.digit d (List.mem_cons_self ..)
  unfold takeField?
  rw [List.cons_append, Text.trimStart_eq_self (isBlank_digit hd)]
  dsimp only
  split
  · rename_i heq
    cases heq
    exact absurd hd (by decide)
  · rename_i heq
    cases heq
    exact absurd hd (by decide)
  · rw [← List.cons_append, hread]
    rfl

theorem takeField?_year (y : Int) {c : Char} (hc : c.isDigit = false) (rest : List Char) :
    takeField? .year (yearText y ++ c :: rest) = some (y, c :: rest) := by
  rw [yearText]
  split
  · rename_i h
    simp only [Bool.and_eq_true, decide_eq_true_eq] at h
    rw [takeField?_digits (digits_padded 4 y.toNat) (length_padded (by decide) (by omega)), Int.toNat_of_nonneg h.1]
  · have hread : takeNumber? (padded 4 y.natAbs ++ c :: rest).length (padded 4 y.natAbs ++ c :: rest) =
        some (y.natAbs, c :: rest) := by
      refine takeNumber?_digits (digits_padded 4 y.natAbs) (.inr ⟨?_, ?_⟩)
      · rw [List.length_append]
        exact Nat.le_add_right _ _
      · rintro _ ⟨⟩
        exact hc
    by_cases hy : y < 0
    · rw [if_pos hy]
      refine (congrArg (Option.map fun r => (-(r.1 : Int), r.2)) hread).trans ?_
      rw [Option.map_some]
      dsimp only
      rw [show -(y.natAbs : Int) = y by omega]
    · rw [if_neg hy]
      refine (congrArg (Option.map fun r => ((r.1 : Int), r.2)) hread).trans ?_
      rw [Option.map_some]
      dsimp only
      rw [show (y.natAbs : Int) = y by omega]

end Numbers

/-! ## Items -/

section Items

variable {p p' : Parts} {cs rest : List Char} {is : List Item}

theorem readItems?_cons {i : Item} (h : readItem? p cs i = some (p', rest)) :
    readItems? p cs (i :: is) = readItems? p' rest is := by
  rw [readItems?, h]

/-- A number of a field, and what stands behind it. -/
theorem readItems?_field {f : Field} {n : Int} (h : takeField? f cs = some (n, rest)) (hset : p.set? f n = some p') :
    readItems? p cs (.field f :: is) = readItems? p' rest is := by
  refine readItems?_cons ?_
  rw [readItem?, h]
  dsimp only
  rw [hset]
  rfl

theorem readItems?_char {c : Char} {options : List Char} (h : options.contains c = true) :
    readItems? p (c :: rest) (.char options :: is) = readItems? p rest is := by
  refine readItems?_cons ?_
  rw [readItem?, if_pos h]

theorem readItems?_blanks {c : Char} (h : Text.isBlank c = false) :
    readItems? p (c :: rest) (.blanks :: is) = readItems? p (c :: rest) is := by
  refine readItems?_cons ?_
  rw [readItem?, Text.trimStart_eq_self h]

/-- A number of two digits. -/
theorem readItems?_two {f : Field} {n : Nat} (hn : n < 100) (hf : f.width = 2) (hset : p.set? f n = some p') :
    readItems? p (padded 2 n ++ rest) (.field f :: is) = readItems? p' rest is := by
  refine readItems?_field (takeField?_digits (digits_padded 2 n) ?_) hset
  rw [length_padded (by decide) hn, hf]

theorem takeFraction?_padded {width n : Nat} (hw : 0 < width) (hwidth : width ≤ 9) (hn : n < 10 ^ width) {c : Char}
    (hc : c.isDigit = false) :
    takeFraction? (padded width n ++ c :: rest) = some (n * 10 ^ (9 - width), c :: rest) := by
  have hdigits := digits_padded width n
  have hlength := length_padded hw hn
  have htake : (padded width n ++ c :: rest).takeWhile Char.isDigit = padded width n := by
    rw [List.takeWhile_append_of_pos hdigits.digit, List.takeWhile_cons_of_neg (by simp [hc]), List.append_nil]
  have hdrop : (padded width n ++ c :: rest).dropWhile Char.isDigit = c :: rest := by
    rw [List.dropWhile_append_of_pos hdigits.digit, List.dropWhile_cons_of_neg (by simp [hc])]
  have hall : (padded width n).take 9 = padded width n := List.take_of_length_le (by omega)
  rw [takeFraction?, htake, hdrop, List.isEmpty_eq_false_iff.2 hdigits.ne_nil, if_neg Bool.false_ne_true, hall,
    hdigits.value, hlength]
  rfl

theorem readItem?_point {width n : Nat} (hw : 0 < width) (hwidth : width ≤ 9) (hn : n < 10 ^ width) {c : Char}
    (hc : c.isDigit = false) : readItem? p ('.' :: padded width n ++ c :: rest) .fraction =
      some ({ p with nano := n * 10 ^ (9 - width) }, c :: rest) := by
  change (takeFraction? (padded width n ++ c :: rest)).map (fun r => ({ p with nano := r.1 }, r.2)) = _
  rw [takeFraction?_padded hw hwidth hn hc, Option.map_some]

/-- The digits that are left out are zeros. -/
theorem readItems?_fraction {nano : Nat} (hnano : nano < 1000000000) (hp : p.nano = 0) {c : Char}
    (hc : c.isDigit = false) (hpoint : c ≠ '.') :
    readItems? p (fractionText nano ++ c :: rest) (.fraction :: is) =
      readItems? { p with nano := nano } (c :: rest) is := by
  refine readItems?_cons ?_
  have hnano3 : nano % 1000000 = 0 → nano / 1000000 * 10 ^ (9 - 3) = nano := by omega
  have hnano6 : nano % 1000 = 0 → nano / 1000 * 10 ^ (9 - 6) = nano := by omega
  rw [fractionText]
  split
  · rename_i h
    obtain rfl : nano = 0 := by simpa using h
    rw [List.nil_append, readItem?, ← hp]
    exact fun _ hcs => hpoint (List.cons.inj hcs).1
  split
  · rename_i h
    rw [readItem?_point (by decide) (by decide) (by omega) hc, hnano3 (by simpa using h)]
  split
  · rename_i h
    rw [readItem?_point (by decide) (by decide) (by omega) hc, hnano6 (by simpa using h)]
  · rw [readItem?_point (by decide) (by decide) (by omega) hc, Nat.sub_self, Nat.pow_zero, Nat.mul_one]

end Items

/-! ## Times -/

/-- A second of a day of a year that is supported, and no leap second. -/
structure DateTime.Regular (t : DateTime) : Prop where
  year : inRange t.date.year = true
  second : t.second < secondsPerDay
  nano : t.nano < 1000000000

/-- The parts of a time. -/
def DateTime.parts (t : DateTime) : Parts :=
  ⟨t.date.year, t.date.month, t.date.day, t.second / 3600, t.second / 60 % 60, t.second % 60, t.nano⟩

theorem utcText_regular {t : DateTime} (h : t.Regular) : t.utcText = yearText t.date.year ++ '-' ::
    (padded 2 t.date.month ++ '-' :: (padded 2 t.date.day ++ 'T' :: (padded 2 (t.second / 3600) ++ ':' ::
      (padded 2 (t.second / 60 % 60) ++ ':' :: (padded 2 (t.second % 60) ++ (fractionText t.nano ++ ['Z'])))))) := by
  have hleap : t.nano / 1000000000 = 0 := Nat.div_eq_of_lt h.nano
  have hnano : t.nano % 1000000000 = t.nano := Nat.mod_eq_of_lt h.nano
  rw [DateTime.utcText, DateTime.text, Date.text, hleap, hnano, Nat.add_zero]
  simp only [List.append_assoc, List.cons_append]

theorem valid_ranges {d : Date} (h : d.isValid = true) : (1 ≤ d.month ∧ d.month ≤ 12) ∧ 1 ≤ d.day ∧ d.day ≤ 31 := by
  simp only [Date.isValid, Bool.and_eq_true, decide_eq_true_eq] at h
  have hdays : daysInMonth d.year d.month ≤ 31 := by
    rw [daysInMonth]
    split
    · split <;> decide
    · split <;> decide
  omega

theorem readItems?_text {t : DateTime} (h : t.Regular) :
    readItems? {} t.utcText (looseDateItems ++ .char separators :: looseTimeItems) = some (t.parts, ['Z']) := by
  obtain ⟨hmonth, hday⟩ := valid_ranges (isValid_ofDayNumber h.year)
  have hsecond : t.second < 86400 := h.second
  -- every part is in the range of its field
  have month (p : Parts) : p.set? .month (t.date.month : Nat) = some { p with month := t.date.month } :=
    if_pos (by simpa [DateTime.date] using hmonth)
  have day (p : Parts) : p.set? .day (t.date.day : Nat) = some { p with day := t.date.day } :=
    if_pos (by simpa [DateTime.date] using hday)
  have hour (p : Parts) : p.set? .hour (t.second / 3600 : Nat) = some { p with hour := t.second / 3600 } :=
    if_pos (by omega)
  have minute (p : Parts) : p.set? .minute (t.second / 60 % 60 : Nat) = some { p with minute := t.second / 60 % 60 } :=
    if_pos (by omega)
  have second (p : Parts) : p.set? .second (t.second % 60 : Nat) = some { p with second := t.second % 60 } :=
    if_pos (by omega)
  have hmonth' : t.date.month < 100 := by rw [DateTime.date]; omega
  have hday' : t.date.day < 100 := by rw [DateTime.date]; omega
  rw [utcText_regular h]
  simp only [looseDateItems, looseTimeItems, List.cons_append, List.nil_append]
  rw [readItems?_field (takeField?_year _ rfl _) rfl, readItems?_blanks rfl, readItems?_char rfl,
    readItems?_two hmonth' rfl (month _), readItems?_blanks rfl, readItems?_char rfl,
    readItems?_two hday' rfl (day _), readItems?_char rfl,
    readItems?_two (by omega) rfl (hour _), readItems?_blanks rfl, readItems?_char rfl,
    readItems?_two (by omega) rfl (minute _), readItems?_blanks rfl, readItems?_char rfl,
    readItems?_two (by omega) rfl (second _), readItems?_fraction h.nano rfl rfl (by decide), readItems?_blanks rfl]
  rfl

theorem utc?_parts {t : DateTime} (h : t.Regular) : t.parts.utc? 0 = some t := by
  have hsecond : t.second < 86400 := h.second
  have hdate : t.parts.date? = some t.date := if_pos (isValid_ofDayNumber h.year)
  have htime : t.parts.dateTime? = some t := by
    have hnot : (t.parts.second == 60) = false := by
      rw [beq_eq_false_iff_ne]
      exact Nat.ne_of_lt (Nat.mod_lt _ (by decide))
    have htotal : 3600 * t.parts.hour + 60 * t.parts.minute + t.parts.second = t.second := by
      simp only [DateTime.parts]
      omega
    rw [Parts.dateTime?, hdate, hnot, Option.map_some, DateTime.date, dayNumber_ofDayNumber, htotal]
    rfl
  have hadd : t.addSeconds (-0) = t := by
    have hday : ((t.second : Int) + -0) / DateTime.secondsPerDay = 0 := by
      simp only [DateTime.secondsPerDay]
      omega
    have hrest : (((t.second : Int) + -0) % DateTime.secondsPerDay).toNat = t.second := by
      simp only [DateTime.secondsPerDay]
      omega
    rw [DateTime.addSeconds, hday, hrest, Int.add_zero]
  rw [Parts.utc?, htime, if_pos (by decide), Option.map_some, hadd]
  exact Option.filter_eq_some_iff.2 ⟨rfl, h.year⟩

/-- A time is read from its text. -/
theorem readLooseUtc?_utcText {t : DateTime} (h : t.Regular) : readLooseUtc? t.utcText = some t := by
  rw [readLooseUtc?, readItems?_text h]
  exact utc?_parts h

end SpatialQuery.Calendar
