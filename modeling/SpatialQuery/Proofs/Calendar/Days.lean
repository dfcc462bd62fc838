import Mathlib.Tactic.IntervalCases
import SpatialQuery.Calendar

/-!
Every day has a date, and no other day has the same one (`dayNumber_ofDayNumber`, `isValid_ofDayNumber`). Years
start in March, so that a leap day is the last day of its year; 400 years have 146097 days.
-/

namespace SpatialQuery.Calendar

/-- The day `d` of 400 years comes after `c` centuries, `q` times four years, `r` years and `s` days. Only the
last year of four is longer, and not that of every century. -/
structure DayOfEra (d c q r s : Int) : Prop where
  day : d = 36524 * c + 1461 * q + 365 * r + s
  century : 0 ≤ c ∧ c ≤ 3
  cycle : 0 ≤ q ∧ q ≤ 24
  year : 0 ≤ r ∧ r ≤ 3
  dayOfYear : 0 ≤ s ∧ s ≤ 365
  leap : s = 365 → r = 3 ∧ (q = 24 → c = 3)

theorem exists_dayOfEra {d : Int} (h0 : 0 ≤ d) (h : d < 146097) : ∃ c q r s, DayOfEra d c q r s := by
  obtain ⟨c, e, hd, hc, he, hlast⟩ : ∃ c e, d = 36524 * c + e ∧ (0 ≤ c ∧ c ≤ 3) ∧ (0 ≤ e ∧ e ≤ 36524) ∧
      (e = 36524 → c = 3) := by
    by_cases hc : d / 36524 ≤ 3
    · exact ⟨d / 36524, d % 36524, by omega, by omega, by omega, by omega⟩
    · exact ⟨3, 36524, by omega, by omega, by omega, by omega⟩
  obtain ⟨r, s, hr, hs, hrs, hleap⟩ : ∃ r s, (0 ≤ r ∧ r ≤ 3) ∧ (0 ≤ s ∧ s ≤ 365) ∧ e % 1461 = 365 * r + s ∧
      (s = 365 → r = 3) := by
    by_cases hr : e % 1461 / 365 ≤ 3
    · exact ⟨e % 1461 / 365, e % 1461 % 365, by omega, by omega, by omega, by omega⟩
    · exact ⟨3, 365, by omega, by omega, by omega, by omega⟩
  exact ⟨c, e / 1461, r, s, by omega, hc, by omega, hr, hs, fun h => ⟨hleap h, fun hq => hlast (by omega)⟩⟩

namespace DayOfEra

variable {d c q r s : Int}

/-- The year of the day. Centuries are a day shorter than four times 25 years, whose years are a day longer than
365 days each fourth time. -/
theorem yearOfEra (h : DayOfEra d c q r s) :
    (d - d / 1460 + d / 36524 - d / 146096) / 365 = 100 * c + 4 * q + r := by
  obtain ⟨hd, hc, hq, hr, hs, hleap⟩ := h
  have hcentury : d / 36524 - d / 146096 = c := by
    obtain ⟨e, he⟩ : ∃ e, e = 1461 * q + 365 * r + s := ⟨_, rfl⟩
    have hrange : 0 ≤ e ∧ (e ≤ 36523 ∨ e = 36524 ∧ c = 3) := by omega
    have hday : d = 36524 * c + e := by omega
    clear he
    omega
  have hcycle : d / 1460 = 25 * c + q ∧ s ≤ 364 ∨ d / 1460 = 25 * c + q + 1 ∧ 1 ≤ s := by omega
  omega

/-- The days before the year. -/
theorem start (h : DayOfEra d c q r s) : 365 * (100 * c + 4 * q + r) + (100 * c + 4 * q + r) / 4 -
    (100 * c + 4 * q + r) / 100 = 36524 * c + 1461 * q + 365 * r := by
  obtain ⟨-, hc, hq, hr, -, -⟩ := h
  have hcycle : (100 * c + 4 * q + r) / 4 = 25 * c + q := by omega
  have hcentury : (100 * c + 4 * q + r) / 100 = c := by omega
  omega

theorem isLeapYear (h : DayOfEra d c q r s) (hs : s = 365) (era : Int) :
    isLeapYear (100 * c + 4 * q + r + era * 400 + 1) = true := by
  obtain ⟨rfl, hlast⟩ := h.leap hs
  obtain ⟨-, hc, hq, -, -, -⟩ := h
  have hfour : (100 * c + 4 * q + 3 + era * 400 + 1) % 4 = 0 := by omega
  have hcentury : (100 * c + 4 * q + 3 + era * 400 + 1) % 100 ≠ 0 ∨
      (100 * c + 4 * q + 3 + era * 400 + 1) % 400 = 0 := by
    by_cases hq : q = 24
    · exact .inr (by omega)
    · exact .inl (by omega)
  simpa [Calendar.isLeapYear, hfour] using hcentury

end DayOfEra

/-- The days before a year, and so many eras later. -/
theorem start_add_era {y : Int} (h : 0 ≤ y ∧ y ≤ 399) (era : Int) :
    365 * (y + era * 400) + (y + era * 400) / 4 - (y + era * 400) / 100 + (y + era * 400) / 400 =
      365 * y + y / 4 - y / 100 + 146097 * era := by
  have hfour : (y + era * 400) / 4 = y / 4 + 100 * era := by omega
  have hcentury : (y + era * 400) / 100 = y / 100 + 4 * era := by omega
  have hera : (y + era * 400) / 400 = era := by omega
  rw [hfour, hcentury, hera]
  omega

/-- The date of day `s` of the year `y`, both from March on. The months are counted from March on, too, and have 153
days in five of them. -/
def Date.ofMarch (y s : Int) : Date :=
  let m := (5 * s + 2) / 153
  let month := if m < 10 then m + 3 else m - 9
  ⟨if month ≤ 2 then y + 1 else y, month.toNat, (s - (153 * m + 2) / 5 + 1).toNat⟩

/-- The year from March on has this day. Its last one is a leap day. -/
structure MarchDay (n y s : Int) : Prop where
  day : n + epoch = 365 * y + y / 4 - y / 100 + y / 400 + s
  range : 0 ≤ s ∧ s ≤ 365
  leap : s = 365 → isLeapYear (y + 1) = true

theorem ofDayNumber_march (n : Int) : ∃ y s, MarchDay n y s ∧ Date.ofDayNumber n = Date.ofMarch y s := by
  obtain ⟨c, q, r, s, h⟩ := exists_dayOfEra (d := (n + epoch) % 146097) (by omega) (by omega)
  have hyear := h.yearOfEra
  have hday : (n + epoch) % 146097 = 365 * (100 * c + 4 * q + r) + (100 * c + 4 * q + r) / 4 -
      (100 * c + 4 * q + r) / 100 + s := by
    rw [h.start]
    exact h.day
  have hrange : 0 ≤ 100 * c + 4 * q + r ∧ 100 * c + 4 * q + r ≤ 399 := by
    obtain ⟨-, hc, hq, hr, -, -⟩ := h
    omega
  refine ⟨100 * c + 4 * q + r + (n + epoch) / 146097 * 400, s, ⟨?_, h.dayOfYear, fun hs => h.isLeapYear hs _⟩, ?_⟩
  · have hdiv := Int.mul_ediv_add_emod (n + epoch) 146097
    rw [start_add_era hrange]
    omega
  · have hs : (n + epoch) % 146097 - (365 * (100 * c + 4 * q + r) + (100 * c + 4 * q + r) / 4 -
        (100 * c + 4 * q + r) / 100) = s := by omega
    unfold Date.ofDayNumber Date.ofMarch
    dsimp only
    rw [hyear, hs]

/-- The day comes `k` days after the start of its month. The last two months belong to the next year. -/
theorem ofMarch_cases (y : Int) {s : Int} (hs : 0 ≤ s ∧ s ≤ 365) : ∃ m k : Nat,
    s = (153 * m + 2) / 5 + k ∧ s < (153 * (m + 1) + 2) / 5 ∧
      (m < 10 ∧ Date.ofMarch y s = ⟨y, m + 3, k + 1⟩ ∨
        (m = 10 ∨ m = 11) ∧ Date.ofMarch y s = ⟨y + 1, m - 9, k + 1⟩) := by
  obtain ⟨m, hm⟩ := Int.eq_ofNat_of_zero_le (a := (5 * s + 2) / 153) (by omega)
  obtain ⟨k, hk⟩ := Int.eq_ofNat_of_zero_le (a := s - (153 * m + 2) / 5) (by omega)
  refine ⟨m, k, by omega, by omega, ?_⟩
  unfold Date.ofMarch
  dsimp only
  rw [hm, hk]
  by_cases h10 : m < 10
  · have hmonth : (if (m : Int) < 10 then (m : Int) + 3 else m - 9) = (m + 3 : Nat) := if_pos (by omega)
    rw [hmonth, if_neg (by omega)]
    exact .inl ⟨h10, rfl⟩
  · have hmonth : (if (m : Int) < 10 then (m : Int) + 3 else m - 9) = (m - 9 : Nat) := by
      rw [if_neg (by omega)]
      omega
    rw [hmonth, if_pos (by omega)]
    exact .inr ⟨by omega, rfl⟩

theorem dayNumber_ofMarch {n y s : Int} (h : MarchDay n y s) : (Date.ofMarch y s).dayNumber = n := by
  have hday := h.day
  obtain ⟨m, k, hs, -, ⟨hm, hdate⟩ | ⟨hm, hdate⟩⟩ := ofMarch_cases y h.range
  · have hcount : (((m + 3 : Nat) : Int) + 9) % 12 = m := by omega
    rw [hdate, Date.dayNumber, if_neg (Nat.not_le.2 (Nat.lt_add_left m (Nat.lt_succ_self 2))), hcount]
    push_cast
    omega
  · have hcount : (((m - 9 : Nat) : Int) + 9) % 12 = m := by omega
    have htwo : m - 9 ≤ 2 := by omega
    rw [hdate, Date.dayNumber, if_pos htwo, hcount, Int.add_sub_cancel]
    push_cast
    omega

theorem isValid_ofMarch {n y s : Int} (h : MarchDay n y s) (hy : inRange (Date.ofMarch y s).year = true) :
    (Date.ofMarch y s).isValid = true := by
  obtain ⟨m, k, hs, hk, ⟨hm, hdate⟩ | ⟨hm, hdate⟩⟩ := ofMarch_cases y h.range
  · have hdays : k + 1 ≤ daysInMonth y (m + 3) := by
      -- From March on, every month has the same length in every year.
      interval_cases m <;> simp [daysInMonth] <;> omega
    rw [Date.isValid, hy, hdate]
    simp [hdays]
    omega
  · have hdays : k + 1 ≤ daysInMonth (y + 1) (m - 9) := by
      rcases hm with rfl | rfl
      · simp [daysInMonth]
        omega
      · have hleap := h.leap
        have hlast := h.range
        cases hyear : isLeapYear (y + 1)
        · -- Day 365, counted from the first of March, is the leap day: a year that ends in a plain February lacks it.
          have hs' : s ≠ 365 := by
            intro hs'
            simp [hleap hs'] at hyear
          simp [daysInMonth, hyear]
          omega
        · simp [daysInMonth, hyear]
          omega
    rw [Date.isValid, hy, hdate]
    simp [hdays]
    omega

/-- The date of a day has its number. -/
theorem dayNumber_ofDayNumber (n : Int) : (Date.ofDayNumber n).dayNumber = n := by
  obtain ⟨y, s, h, hdate⟩ := ofDayNumber_march n
  rw [hdate, dayNumber_ofMarch h]

theorem isValid_ofDayNumber {n : Int} (hy : inRange (Date.ofDayNumber n).year = true) :
    (Date.ofDayNumber n).isValid = true := by
  obtain ⟨y, s, h, hdate⟩ := ofDayNumber_march n
  rw [hdate] at hy ⊢
  exact isValid_ofMarch h hy

end SpatialQuery.Calendar
