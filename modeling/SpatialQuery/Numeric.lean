import SpatialQuery.Bytes
import SpatialQuery.Text.Blank
import SpatialQuery.Text.Case
import SpatialQuery.Text.Integer

/-!
Decimal numbers of any length, as a database sends them: their digits in groups of four, with the power
of 10000 of the first group and the number of digits behind the point.
-/

namespace SpatialQuery.Numeric

/-- A number as it is written: its sign, and its digits before and behind the point. -/
inductive Numeral where
  | nan
  | decimal (negative : Bool) (whole fraction : List Char)
  deriving DecidableEq, Repr

/-- Digits with at most one point among them, and at least one digit. -/
def readUnsigned? (negative : Bool) (cs : List Char) : Option Numeral :=
  let whole := cs.takeWhile (· != '.')
  let fraction := (cs.dropWhile (· != '.')).drop 1
  if (whole ++ fraction).isEmpty || !(whole ++ fraction).all Char.isDigit then none
  else some (.decimal negative whole fraction)

def Numeral.read? (cs : List Char) : Option Numeral :=
  if Text.sameLetters cs "nan".toList then some .nan
  else
    match cs with
    | '-' :: cs => readUnsigned? true cs
    | '+' :: cs => readUnsigned? false cs
    | cs => readUnsigned? false cs

/-- The fields of a number as it is sent. -/
structure Fields where
  groups : List Int
  /-- The power of 10000 of the first group. -/
  weight : Int
  sign : Nat
  /-- The number of digits behind the point. -/
  scale : Nat
  deriving DecidableEq, Repr

def signPositive : Nat := 0

def signNegative : Nat := 0x4000

def signNaN : Nat := 0xC000

/-- The numbers that groups of four digits stand for. -/
def groupsOf : List Char → List Int
  | a :: b :: c :: d :: cs =>
    ([a, b, c, d].foldl (fun n c => 10 * n + Text.digitValue c) 0 : Nat) :: groupsOf cs
  | _ => []

/-- How many zeros fill a row of digits up to whole groups. -/
def fill (n : Nat) : Nat :=
  (4 - n % 4) % 4

/-- The groups of a number around its point, and how many of them are in front of it. -/
def groupsAround (whole fraction : List Char) : List Int × Nat :=
  (groupsOf (List.replicate (fill whole.length) '0' ++ whole ++ fraction ++
    List.replicate (fill fraction.length) '0'), (fill whole.length + whole.length) / 4)

/-- The fields of a number. No group at either end is zero, and zero has no sign. -/
def Fields.ofNumeral : Numeral → Fields
  | .nan => ⟨[], 0, signNaN, 0⟩
  | .decimal negative whole fraction =>
    let (groups, front) := groupsAround (whole.dropWhile (· == '0')) fraction
    -- Each group of zeros taken off the front lowers the power of the first group by one.
    let stripped := groups.dropWhile (· == 0)
    let kept := (stripped.reverse.dropWhile (· == 0)).reverse
    if kept.isEmpty then ⟨[], 0, signPositive, fraction.length⟩
    else
      ⟨kept, (front : Int) - 1 - (groups.length - stripped.length),
        if negative then signNegative else signPositive, fraction.length⟩

/-- The fields as bytes, two for each number. -/
def Fields.bytes (f : Fields) : Bytes :=
  Bytes.ofNat 2 f.groups.length ++ Bytes.ofInt 2 f.weight ++ Bytes.ofNat 2 f.sign ++
    Bytes.ofNat 2 f.scale ++ f.groups.flatMap (Bytes.ofInt 2)

/-- The bytes of the number that a text stands for. The error is the text without the blanks around
it. -/
def encode (s : String) : Except String Bytes :=
  match Numeral.read? (Text.trim s).toList with
  | some n => .ok (Fields.ofNumeral n).bytes
  | none => .error (Text.trim s)

/-- Signed numbers of two bytes. -/
def pairs : Nat → Bytes → List Int
  | n + 1, a :: b :: bs => Bytes.toInt [a, b] :: pairs n bs
  | _, _ => []

/-- The fields that bytes stand for; of NaN the rest does not matter. -/
def Fields.read? : Bytes → Option Fields
  | n₁ :: n₂ :: w₁ :: w₂ :: s₁ :: s₂ :: d₁ :: d₂ :: bs =>
    let count := (Bytes.toInt [n₁, n₂]).toNat
    let sign := Bytes.toNat [s₁, s₂]
    if sign == signNaN then some ⟨[], 0, signNaN, 0⟩
    else if bs.length < 2 * count then none
    else some ⟨pairs count bs, Bytes.toInt [w₁, w₂], sign, Bytes.toNat [d₁, d₂]⟩
  | _ => none

/-- A group with zeros in front, four characters at least. -/
def groupText (g : Int) : List Char :=
  if g < 0 then '-' :: (Text.ofNat g.natAbs).leftpad 3 '0' else (Text.ofNat g.natAbs).leftpad 4 '0'

/-- The group at a place, counted from the first one. -/
def Fields.group (f : Fields) (i : Int) : Int :=
  if i < 0 then 0 else f.groups.getD i.toNat 0

/-- The groups from a place on. -/
def Fields.groupsFrom (f : Fields) (start : Int) (count : Nat) : List Int :=
  (List.range count).map fun (i : Nat) => f.group (start + i)

def Fields.wholeText (f : Fields) : List Char :=
  if f.weight < 0 then ['0']
  else Text.ofInt (f.group 0) ++ (f.groupsFrom 1 f.weight.toNat).flatMap groupText

def Fields.fractionText (f : Fields) : List Char :=
  ((f.groupsFrom (f.weight + 1) ((f.scale + 3) / 4)).flatMap groupText).take f.scale

def Fields.text (f : Fields) : List Char :=
  if f.sign == signNaN then "NaN".toList
  else
    (if f.sign == signNegative then ['-'] else []) ++ f.wholeText ++
      if f.scale == 0 then [] else '.' :: f.fractionText

/-- The number that bytes stand for, as text. -/
def decode? (bs : Bytes) : Option String :=
  (Fields.read? bs).map fun f => String.ofList f.text

end SpatialQuery.Numeric
