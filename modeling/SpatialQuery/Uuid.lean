import SpatialQuery.Bytes

/-!
UUIDs: sixteen bytes, written as hexadecimal digits in five groups.
-/

namespace SpatialQuery.Uuid

def groupLengths : List Nat := [8, 4, 4, 4, 12]

/-- The hexadecimal digits of five groups with hyphens between them. -/
def joinGroups? (cs : List Char) : Option (List Char) :=
  let groups := cs.splitOn '-'
  if groups.map List.length == groupLengths then some groups.flatten else none

/-- The digits without what may stand around them. -/
def digits? (cs : List Char) : Option (List Char) :=
  if cs.length == 32 then some cs
  else if cs.length == 36 then joinGroups? cs
  else if cs.length == 38 && cs.head? == some '\x7b' && cs.getLast? == some '\x7d' then
    joinGroups? (cs.drop 1).dropLast
  else if "urn:uuid:".toList.isPrefixOf cs then joinGroups? (cs.drop 9)
  else none

def read? (cs : List Char) : Option Bytes :=
  (digits? cs).bind Bytes.readHex?

/-- Cuts a list into pieces of given lengths. -/
def cut : List Nat → List α → List (List α)
  | [], _ => []
  | n :: ns, xs => xs.take n :: cut ns (xs.drop n)

/-- Digits in lower case, with hyphens between the groups. -/
def text (bs : Bytes) : String :=
  let digits := (bs.flatMap Bytes.hexChars).map Char.toLower
  String.ofList (['-'].intercalate (cut groupLengths digits))

end SpatialQuery.Uuid
