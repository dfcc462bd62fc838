import SpatialQuery.Text.Integer

/-!
The shortest decimal that reads back as a given floating-point number. A double is a mantissa times a
power of two; the decimals that read back as it lie between the midpoints to its two neighbours, the
midpoints included where the mantissa is even. For one digit, two digits and so on, the two decimals
next to the value are tried.
-/

namespace SpatialQuery.Decimal

/-- The positive number `mantissa * 2 ^ exponent`. Below a power of two the neighbour is nearer. -/
structure Binary where
  mantissa : Nat
  exponent : Int
  nearBelow : Bool
  deriving DecidableEq, Repr

/-- The number `digits * 10 ^ exponent`. -/
structure Scaled where
  digits : Nat
  exponent : Int
  deriving DecidableEq, Repr

/-- The magnitude of a finite double, by its bits. -/
def Binary.ofBits (bits : UInt64) : Binary :=
  let fraction : Nat := bits.toNat % 0x10000000000000
  let field : Nat := bits.toNat / 0x10000000000000 % 0x800
  if field == 0 then ⟨fraction, -1074, false⟩
  else ⟨0x10000000000000 + fraction, (field : Int) - 1075, fraction == 0 && field != 1⟩

/-- The factors of `base ^ e` above and below the line. -/
def powerFactors (base : Nat) (e : Int) : Nat × Nat :=
  (base.pow e.toNat, base.pow (-e).toNat)

/-- The better of the two multiples of `10 ^ unit` next to the value, if one reads back as it. With
`tieUp`, the greater of two equally good ones is taken, otherwise the even one. -/
def Binary.onGrid? (b : Binary) (tieUp : Bool) (unit : Int) : Option Scaled :=
  -- In quarters of the last binary place, the value and the midpoints around it are whole numbers.
  let two := powerFactors 2 (b.exponent - 2)
  let ten := powerFactors 10 unit
  let step := ten.1 * two.2
  let scale := two.1 * ten.2
  let value := 4 * b.mantissa * scale
  let least := (4 * b.mantissa - if b.nearBelow then 1 else 2) * scale
  let greatest := (4 * b.mantissa + 2) * scale
  let inside (n : Nat) : Bool :=
    if b.mantissa % 2 == 0 then least ≤ n * step && n * step ≤ greatest
    else least < n * step && n * step < greatest
  let below := value / step
  let rest := value % step
  let above := below + 1
  match inside below && below != 0, inside above with
  | true, true =>
    if 2 * rest < step then some ⟨below, unit⟩
    else if step < 2 * rest then some ⟨above, unit⟩
    else if tieUp || below % 2 == 1 then some ⟨above, unit⟩
    else some ⟨below, unit⟩
  | true, false => some ⟨below, unit⟩
  | false, true => some ⟨above, unit⟩
  | false, false => none

/-- The number of decimal places in front of the point that the value needs; for a value below one,
minus the number of zeros behind the point, or one more than that. -/
def Binary.places (b : Binary) : Int :=
  let (num, den) := powerFactors 2 b.exponent
  let whole := b.mantissa * num / den
  if whole != 0 then (Text.ofNat whole).length
  else 2 - ((Text.ofNat (den / b.mantissa)).length : Int)

/-- The shortest decimal that reads back. Seventeen digits always do; one grid more is tried because
`places` may be one too many. -/
def Binary.shortest (b : Binary) (tieUp : Bool) : Scaled :=
  ((List.range 18).findSome? fun (n : Nat) => b.onGrid? tieUp (b.places - 1 - n)).getD ⟨b.mantissa, b.exponent⟩

/-- Removes factors of ten from the digits. -/
def Scaled.normalize (s : Scaled) : Scaled :=
  let zeros := ((Text.ofNat s.digits).reverse.takeWhile (· == '0')).length
  if s.digits == 0 then s else ⟨s.digits / Nat.pow 10 zeros, s.exponent + zeros⟩

/-- Digits with a point, zeros filled in where the digits do not reach it. -/
def Scaled.positional (s : Scaled) : List Char :=
  let ds := Text.ofNat s.digits
  if 0 ≤ s.exponent then ds ++ List.replicate s.exponent.toNat '0'
  else
    let behind := (-s.exponent).toNat
    if behind < ds.length then ds.take (ds.length - behind) ++ '.' :: ds.drop (ds.length - behind)
    else '0' :: '.' :: List.replicate (behind - ds.length) '0' ++ ds

/-- How numbers are written: where it stops being positional, and what it makes of ties. -/
structure Style where
  /-- Of two equally good decimals, take the greater one instead of the even one. -/
  tieUp : Bool
  /-- Whole numbers end in `.0`. -/
  pointZero : Bool
  /-- The numbers of places, from above the first to the second, that are written positionally. -/
  positional : Option (Int × Int)
  nan : String
  infinity : String

/-- Digits with one of them in front of the point, and the exponent of ten. -/
def Scaled.scientific (s : Scaled) (places : Int) : List Char :=
  match Text.ofNat s.digits with
  | [] => []
  | d :: ds => d :: (if ds.isEmpty then [] else '.' :: ds) ++ 'e' :: Text.ofInt (places - 1)

/-- The text of a positive decimal. -/
def Style.magnitude (f : Style) (s : Scaled) : List Char :=
  let s := s.normalize
  let places := s.exponent + (Text.ofNat s.digits).length
  if f.positional.all fun (low, high) => low < places && places ≤ high then
    s.positional ++ if f.pointZero && 0 ≤ s.exponent then ['.', '0'] else []
  else s.scientific places

/-- The text of a double. -/
def Style.text (f : Style) (x : Float) : String :=
  let bits := x.toBits
  let sign := if bits.toNat / 0x8000000000000000 == 1 then ['-'] else []
  if x.isNaN then f.nan
  else if x.isInf then String.ofList (sign ++ f.infinity.toList)
  else
    let b := Binary.ofBits bits
    if b.mantissa == 0 then String.ofList (sign ++ '0' :: if f.pointZero then ['.', '0'] else [])
    else String.ofList (sign ++ f.magnitude (b.shortest f.tieUp))

/-- Numbers as texts of SQL values: always positional. -/
def plain : Style := ⟨true, false, none, "NaN", "inf"⟩

/-- Numbers in JSON: positional up to 16 places, and with at most four zeros behind the point. -/
def json : Style := ⟨false, true, some (-5, 16), "null", "null"⟩

end SpatialQuery.Decimal
