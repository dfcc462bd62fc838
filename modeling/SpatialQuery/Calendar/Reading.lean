import SpatialQuery.Calendar
import SpatialQuery.Text.Blank
import SpatialQuery.Text.Case

/-!
Reading dates and times. A format is a row of fields and of what stands between them.
-/

namespace SpatialQuery.Calendar

/-- The fields of a date and a time, as they are read. -/
structure Parts where
  year : Int := 0
  month : Nat := 0
  day : Nat := 0
  hour : Nat := 0
  minute : Nat := 0
  second : Nat := 0
  nano : Nat := 0
  deriving DecidableEq, Repr

inductive Field where
  | year
  | month
  | day
  | hour
  | minute
  | second
  deriving DecidableEq, Repr

inductive Item where
  /-- A number of up to so many digits as the field needs, with blanks in front. A year may have a sign,
  and then any number of digits. -/
  | field (f : Field)
  /-- A number of exactly so many digits. -/
  | digits (f : Field)
  /-- One of several characters. -/
  | char (cs : List Char)
  /-- Blanks, or none. -/
  | blanks
  /-- A point and the digits of a fraction of a second, or nothing. -/
  | fraction
  deriving DecidableEq, Repr

def Field.width : Field → Nat
  | year => 4
  | _ => 2

/-- The fields with one of them replaced, if it can have the value. -/
def Parts.set? (p : Parts) (f : Field) (n : Int) : Option Parts :=
  match f with
  | .year => some { p with year := n }
  | .month => if 1 ≤ n && n ≤ 12 then some { p with month := n.toNat } else none
  | .day => if 1 ≤ n && n ≤ 31 then some { p with day := n.toNat } else none
  | .hour => if n ≤ 23 then some { p with hour := n.toNat } else none
  | .minute => if n ≤ 59 then some { p with minute := n.toNat } else none
  | .second => if n ≤ 60 then some { p with second := n.toNat } else none

def digitsValue (ds : List Char) : Nat :=
  ds.foldl (fun n c => 10 * n + Text.digitValue c) 0

/-- At least one digit, of so many characters at most. -/
def takeNumber? (width : Nat) (cs : List Char) : Option (Nat × List Char) :=
  let ds := (cs.take width).takeWhile Char.isDigit
  if ds.isEmpty then none else some (digitsValue ds, cs.drop ds.length)

/-- The number of a field, with blanks in front. -/
def takeField? (f : Field) (cs : List Char) : Option (Int × List Char) :=
  let cs := Text.trimStart cs
  match f, cs with
  | .year, '-' :: cs => (takeNumber? cs.length cs).map fun (n, rest) => (-(n : Int), rest)
  | .year, '+' :: cs => (takeNumber? cs.length cs).map fun (n, rest) => ((n : Int), rest)
  | f, cs => (takeNumber? f.width cs).map fun (n, rest) => ((n : Int), rest)

/-- Nanoseconds from the digits behind a point; digits from the tenth on do not count. -/
def takeFraction? (cs : List Char) : Option (Nat × List Char) :=
  let ds := cs.takeWhile Char.isDigit
  if ds.isEmpty then none
  else some (digitsValue (ds.take 9) * Nat.pow 10 (9 - (ds.take 9).length), cs.dropWhile Char.isDigit)

def readItem? (p : Parts) (cs : List Char) : Item → Option (Parts × List Char)
  | .field f =>
    match takeField? f cs with
    | some (n, rest) => (p.set? f n).map (·, rest)
    | none => none
  | .digits f =>
    if (cs.take f.width).length == f.width && (cs.take f.width).all Char.isDigit then
      (p.set? f (digitsValue (cs.take f.width))).map (·, cs.drop f.width)
    else none
  | .char options =>
    match cs with
    | c :: rest => if options.contains c then some (p, rest) else none
    | [] => none
  | .blanks => some (p, Text.trimStart cs)
  | .fraction =>
    match cs with
    | '.' :: cs => (takeFraction? cs).map fun (n, rest) => ({ p with nano := n }, rest)
    | cs => some (p, cs)

/-- Reads the items of a format at the front of a text. -/
def readItems? (p : Parts) (cs : List Char) : List Item → Option (Parts × List Char)
  | [] => some (p, cs)
  | i :: is =>
    match readItem? p cs i with
    | some (p, rest) => readItems? p rest is
    | none => none

def Parts.date? (p : Parts) : Option Date :=
  let d : Date := ⟨p.year, p.month, p.day⟩
  if d.isValid then some d else none

/-- The time that the fields name; a sixtieth second is a leap second. -/
def Parts.dateTime? (p : Parts) : Option DateTime :=
  p.date?.map fun d =>
    let leap := if p.second == 60 then 1 else 0
    ⟨d.dayNumber, 3600 * p.hour + 60 * p.minute + p.second - leap, p.nano + leap * 1000000000⟩

def dateItems : List Item :=
  [.field .year, .char ['-'], .field .month, .char ['-'], .field .day]

def timeItems : List Item :=
  [.field .hour, .char [':'], .field .minute, .char [':'], .field .second, .fraction]

/-- Reads a text that a format covers from end to end. -/
def readAll? (format : List Item) (cs : List Char) : Option Parts :=
  match readItems? {} cs format with
  | some (p, []) => some p
  | _ => none

def readDate? (cs : List Char) : Option Date :=
  (readAll? dateItems cs).bind Parts.date?

/-- A date and a time with a `T` or blanks between them. -/
def readDateTime? (cs : List Char) : Option DateTime :=
  ((readAll? (dateItems ++ .char ['T'] :: timeItems) cs).bind Parts.dateTime?).or
    ((readAll? (dateItems ++ .blanks :: timeItems) cs).bind Parts.dateTime?)

/-! ## Times with an offset from UTC -/

/-- The seconds of an offset: hours and minutes, with something between them that `between` removes. -/
def readOffset? (between : List Char → Option (List Char)) (cs : List Char) :
    Option (Int × List Char) :=
  match cs with
  | [] => none
  | c :: cs =>
    if c == 'Z' || c == 'z' then some (0, cs)
    else if c == '+' || c == '-' || c == '−' then
      match cs with
      | h₁ :: h₂ :: cs =>
        match between cs with
        | some (m₁ :: m₂ :: rest) =>
          if [h₁, h₂, m₁, m₂].all Char.isDigit && m₁ ≤ '5' then
            let seconds : Int := 3600 * digitsValue [h₁, h₂] + 60 * digitsValue [m₁, m₂]
            some (if c == '+' then seconds else -seconds, rest)
          else none
        | _ => none
      | _ => none
    else none

def colon? : List Char → Option (List Char)
  | ':' :: cs => some cs
  | _ => none

def separators : List Char :=
  ['t', 'T', ' ']

/-- The time in UTC, when the offset is shorter than a day. -/
def Parts.utc? (p : Parts) (offset : Int) : Option DateTime :=
  if offset.natAbs < DateTime.secondsPerDay then
    (p.dateTime?.map (·.addSeconds (-offset))).filter fun t => inRange t.date.year
  else none

/-- The strict format of times with an offset. -/
def offsetItems : List Item :=
  [.digits .year, .char ['-'], .digits .month, .char ['-'], .digits .day, .char separators,
    .digits .hour, .char [':'], .digits .minute, .char [':'], .digits .second, .fraction]

/-- Reads a time with its offset. -/
def readUtc? (cs : List Char) : Option DateTime :=
  match readItems? {} cs offsetItems with
  | none => none
  | some (p, rest) =>
    match readOffset? colon? rest with
    | some (offset, []) => p.utc? offset
    | _ => none

/-! ### With blanks -/

def looseDateItems : List Item :=
  [.field .year, .blanks, .char ['-'], .field .month, .blanks, .char ['-'], .field .day]

def looseTimeItems : List Item :=
  [.field .hour, .blanks, .char [':'], .field .minute, .blanks, .char [':'], .field .second, .fraction,
    .blanks]

def looseColon? (cs : List Char) : Option (List Char) :=
  some (cs.dropWhile fun c => c == ':' || Text.isBlank c)

/-- An offset, for which `UTC` may stand. -/
def readLooseOffset? (cs : List Char) : Option (Int × List Char) :=
  if Text.sameLetters (cs.take 3) "UTC".toList then some (0, cs.drop 3) else readOffset? looseColon? cs

/-- Reads a time with its offset, between whose parts there may be blanks. -/
def readLooseUtc? (cs : List Char) : Option DateTime :=
  match readItems? {} cs (looseDateItems ++ .char separators :: looseTimeItems) with
  | none => none
  | some (p, rest) =>
    match readLooseOffset? rest with
    | some (offset, rest) => if (Text.trimStart rest).isEmpty then p.utc? offset else none
    | none => none

end SpatialQuery.Calendar
