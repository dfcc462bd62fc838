import SpatialQuery.Text.Integer

/-!
Dates of the Gregorian calendar, extended to all years, and times of day. Days are counted from the
first of January 2000.
-/

namespace SpatialQuery.Calendar

structure Date where
  year : Int
  month : Nat
  day : Nat
  deriving DecidableEq, Repr

def isLeapYear (y : Int) : Bool :=
  y % 4 == 0 && (y % 100 != 0 || y % 400 == 0)

def daysInMonth (y : Int) (m : Nat) : Nat :=
  if m == 2 then if isLeapYear y then 29 else 28
  else if m == 4 || m == 6 || m == 9 || m == 11 then 30
  else 31

/-- The years that are supported. -/
def inRange (y : Int) : Bool :=
  -262143 ≤ y && y ≤ 262142

def Date.isValid (d : Date) : Bool :=
  inRange d.year && 1 ≤ d.month && d.month ≤ 12 && 1 ≤ d.day && d.day ≤ daysInMonth d.year d.month

/-- The days from the first of March of the year 0 to the first of January 2000. -/
def epoch : Int := 730425

/-- The number of the day. Years are counted from March on, so that a leap day ends its year. -/
def Date.dayNumber (d : Date) : Int :=
  let y := if d.month ≤ 2 then d.year - 1 else d.year
  let dayOfYear : Int := (153 * ((d.month + 9) % 12) + 2) / 5 + (d.day - 1)
  365 * y + y / 4 - y / 100 + y / 400 + dayOfYear - epoch

/-- The date of a day. -/
def Date.ofDayNumber (n : Int) : Date :=
  let z := n + epoch
  -- The calendar repeats after 400 years, which have 146097 days.
  let era := z / 146097
  let dayOfEra := z % 146097
  let yearOfEra := (dayOfEra - dayOfEra / 1460 + dayOfEra / 36524 - dayOfEra / 146096) / 365
  let dayOfYear := dayOfEra - (365 * yearOfEra + yearOfEra / 4 - yearOfEra / 100)
  -- From March on, five months in a row have 153 days.
  let mp := (5 * dayOfYear + 2) / 153
  let month := if mp < 10 then mp + 3 else mp - 9
  let year := yearOfEra + era * 400
  ⟨if month ≤ 2 then year + 1 else year, month.toNat, (dayOfYear - (153 * mp + 2) / 5 + 1).toNat⟩

/-- The date of a day, if its year is supported. -/
def Date.ofDayNumber? (n : Int) : Option Date :=
  let d := Date.ofDayNumber n
  if inRange d.year then some d else none

/-- A point in time. A leap second is the second billion of nanoseconds of the second before it. -/
structure DateTime where
  day : Int
  second : Nat
  nano : Nat
  deriving DecidableEq, Repr

namespace DateTime

def secondsPerDay : Nat := 86400

def microsPerDay : Int := 86400 * 1000000

/-- The nanoseconds since the start of the year 2000. -/
def nanos (t : DateTime) : Int :=
  (t.day * secondsPerDay + t.second) * 1000000000 + t.nano

/-- The microseconds since the start of the year 2000, without a fraction. -/
def micros (t : DateTime) : Int :=
  t.nanos.tdiv 1000

def ofMicros (m : Int) : DateTime :=
  let rest := (m % microsPerDay).toNat
  ⟨m / microsPerDay, rest / 1000000, rest % 1000000 * 1000⟩

def date (t : DateTime) : Date :=
  .ofDayNumber t.day

/-- The time of so many microseconds, if its year is supported. -/
def ofMicros? (m : Int) : Option DateTime :=
  let t := ofMicros m
  if inRange t.date.year then some t else none

/-- The time some seconds later. -/
def addSeconds (t : DateTime) (seconds : Int) : DateTime :=
  let total := t.second + seconds
  ⟨t.day + total / secondsPerDay, (total % secondsPerDay).toNat, t.nano⟩

end DateTime

/-! ## Text -/

def padded (width n : Nat) : List Char :=
  (Text.ofNat n).leftpad width '0'

/-- Four digits; years outside of them have a sign. -/
def yearText (y : Int) : List Char :=
  if 0 ≤ y && y ≤ 9999 then padded 4 y.toNat
  else (if y < 0 then '-' else '+') :: padded 4 y.natAbs

def Date.text (d : Date) : List Char :=
  yearText d.year ++ '-' :: padded 2 d.month ++ '-' :: padded 2 d.day

/-- Three, six or nine digits, as many as are needed. -/
def fractionText (nano : Nat) : List Char :=
  if nano == 0 then []
  else if nano % 1000000 == 0 then '.' :: padded 3 (nano / 1000000)
  else if nano % 1000 == 0 then '.' :: padded 6 (nano / 1000)
  else '.' :: padded 9 nano

/-- Date and time with a `T` between them. -/
def DateTime.text (t : DateTime) : List Char :=
  let leap := t.nano / 1000000000
  t.date.text ++ 'T' :: padded 2 (t.second / 3600) ++ ':' :: padded 2 (t.second / 60 % 60) ++
    ':' :: padded 2 (t.second % 60 + leap) ++ fractionText (t.nano % 1000000000)

/-- The text of a time that is counted in UTC. -/
def DateTime.utcText (t : DateTime) : List Char :=
  t.text ++ ['Z']

end SpatialQuery.Calendar
