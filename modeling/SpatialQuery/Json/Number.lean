import SpatialQuery.Decimal.Reading
import SpatialQuery.Json

/-!
Numbers in JSON text. A whole number of 64 bits is read exactly. Any other number is read as the
leading digits that fit into 64 bits, times a power of ten, computed in double precision.
-/

namespace SpatialQuery.Json

/-- The parts of a written number. -/
structure Numeral where
  negative : Bool
  whole : List Char
  fraction : Option (List Char)
  exponent : Option Int

/-- Appends digits to a number while it fits into 64 bits; says how many were appended. -/
def appendDigits (n count : Nat) : List Char → Nat × Nat
  | [] => (n, count)
  | c :: cs =>
    if Text.maxNat64 < 10 * n + Text.digitValue c then (n, count)
    else appendDigits (10 * n + Text.digitValue c) (count + 1) cs

/-- `x * 10 ^ e`, unless it is infinite. The power is divided out in steps of at most `10 ^ 308`. -/
def scale (x : Float) (e : Int) : Option Float :=
  if 308 < e then if x == 0 then some x else none
  else if 0 ≤ e then
    let y := x * Float.ofScientific 1 false e.toNat
    if y.isInf then none else some y
  else if -308 ≤ e then some (x / Float.ofScientific 1 false e.natAbs)
  else if x == 0 then some x
  else scale (x / Float.ofScientific 1 false 308) (e + 308)
termination_by e.natAbs

namespace Numeral

/-- A number without fraction and exponent, if it fits. Zero with a minus sign is not whole. -/
def whole? (n : Numeral) : Option Int :=
  if n.fraction.isSome || n.exponent.isSome then none
  else
    let (value, count) := appendDigits 0 0 n.whole
    if count != n.whole.length then none
    else if !n.negative then some value
    else if 0 < value && value ≤ 0x8000000000000000 then some (-(value : Int))
    else none

def float? (n : Numeral) : Option Float :=
  let (value, count) := appendDigits 0 0 n.whole
  let skipped : Int := n.whole.length - count
  -- A whole digit left out raises the power of ten, a digit taken from behind the point lowers it.
  let (value, places) := appendDigits value 0 (n.fraction.getD [])
  (scale (Float.ofNat value) (skipped - places + n.exponent.getD 0)).map fun x =>
    if n.negative then -x else x

def toJson (n : Numeral) : Json :=
  match n.whole? with
  | some i => .int i
  | none => (n.float?.map Json.float).getD .unreadable

/-- Digits behind a point. -/
def readFraction (cs : List Char) : Option (Option (List Char) × List Char) :=
  match cs with
  | '.' :: cs =>
    let ds := cs.takeWhile Char.isDigit
    if ds.isEmpty then none else some (some ds, cs.dropWhile Char.isDigit)
  | cs => some (none, cs)

/-- An exponent with an optional sign. -/
def readExponent (cs : List Char) : Option (Option Int × List Char) :=
  match cs with
  | c :: cs =>
    if c == 'e' || c == 'E' then
      let (negative, cs) := match cs with
        | '-' :: cs => (true, cs)
        | '+' :: cs => (false, cs)
        | cs => (false, cs)
      match Decimal.digits cs with
      | (_, 0, _) => none
      | (n, _, rest) => some (some (if negative then -(n : Int) else n), rest)
    else some (none, c :: cs)
  | [] => some (none, [])

/-- Reads a number at the front of a text. It has no leading zeros. -/
def read (cs : List Char) : Option (Numeral × List Char) := do
  let (negative, cs) := match cs with
    | '-' :: cs => (true, cs)
    | cs => (false, cs)
  let whole := cs.takeWhile Char.isDigit
  if whole.isEmpty || (whole.length != 1 && whole.head? == some '0') then failure
  let (fraction, rest) ← readFraction (cs.dropWhile Char.isDigit)
  let (exponent, rest) ← readExponent rest
  return (⟨negative, whole, fraction, exponent⟩, rest)

end Numeral

end SpatialQuery.Json
