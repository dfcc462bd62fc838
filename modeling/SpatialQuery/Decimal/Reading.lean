import SpatialQuery.Text.Case
import SpatialQuery.Text.Integer

/-!
Reading the text of a floating-point number: digits with at most one point and an optional exponent,
or the name of infinity or of NaN, each with an optional sign.
-/

namespace SpatialQuery.Decimal

/-- A magnitude as it is written: `digits * 10 ^ exponent`, infinity, or not a number. -/
inductive Magnitude where
  | finite (digits : Nat) (exponent : Int)
  | infinity
  | nan
  deriving DecidableEq, Repr

structure Literal where
  negative : Bool
  magnitude : Magnitude
  deriving DecidableEq, Repr

/-- The digits at the front of a text, as a number, with their count and the rest of the text. -/
def digits (cs : List Char) : Nat × Nat × List Char :=
  let ds := cs.takeWhile Char.isDigit
  (ds.foldl (fun n c => 10 * n + Text.digitValue c) 0, ds.length, cs.dropWhile Char.isDigit)

/-- The exponent that a text consists of; none for an empty text. -/
def exponent? (cs : List Char) : Option Int :=
  match cs with
  | [] => some 0
  | c :: cs =>
    if c == 'e' || c == 'E' then
      let (negative, cs) := match cs with
        | '-' :: cs => (true, cs)
        | '+' :: cs => (false, cs)
        | cs => (false, cs)
      match digits cs with
      | (_, 0, _) => none
      | (n, _, []) => some (if negative then -(n : Int) else n)
      | _ => none
    else none

/-- A finite magnitude: digits in front of the point, behind it, or both. -/
def finite? (cs : List Char) : Option Magnitude :=
  let (whole, n, rest) := digits cs
  let (fraction, m, rest) := match rest with
    | '.' :: rest => digits rest
    | rest => (0, 0, rest)
  if n + m == 0 then none
  else (exponent? rest).map fun e => .finite (whole * Nat.pow 10 m + fraction) (e - m)

def magnitude? (cs : List Char) : Option Magnitude :=
  if Text.sameLetters cs "inf".toList || Text.sameLetters cs "infinity".toList then some .infinity
  else if Text.sameLetters cs "nan".toList then some .nan
  else finite? cs

def Literal.read? (cs : List Char) : Option Literal :=
  match cs with
  | '-' :: cs => (magnitude? cs).map (⟨true, ·⟩)
  | '+' :: cs => (magnitude? cs).map (⟨false, ·⟩)
  | cs => (magnitude? cs).map (⟨false, ·⟩)

/-- The double next to a magnitude. -/
def Magnitude.toFloat : Magnitude → Float
  | finite digits exponent => Float.ofScientific digits (exponent < 0) exponent.natAbs
  | infinity => 1.0 / 0.0
  | nan => 0.0 / 0.0

/-- The single-precision number next to a magnitude. -/
def Magnitude.toFloat32 : Magnitude → Float32
  | finite digits exponent => Float32.ofScientific digits (exponent < 0) exponent.natAbs
  | infinity => 1.0 / 0.0
  | nan => 0.0 / 0.0

def Literal.toFloat (l : Literal) : Float :=
  if l.negative then -l.magnitude.toFloat else l.magnitude.toFloat

/-- The bits of the number; the sign of NaN is kept. -/
def Literal.toBits (l : Literal) : UInt64 :=
  l.magnitude.toFloat.toBits ||| if l.negative then 0x8000000000000000 else 0

def Literal.toBits32 (l : Literal) : UInt32 :=
  l.magnitude.toFloat32.toBits ||| if l.negative then 0x80000000 else 0

/-- What a text fails to be a number by. -/
inductive ReadError where
  | empty
  | invalid
  deriving DecidableEq, Repr

def ReadError.message : ReadError → String
  | .empty => "cannot parse float from empty string"
  | .invalid => "invalid float literal"

def Literal.read (cs : List Char) : Except ReadError Literal :=
  match Literal.read? cs with
  | some l => .ok l
  | none => .error (if cs.isEmpty then .empty else .invalid)

end SpatialQuery.Decimal
