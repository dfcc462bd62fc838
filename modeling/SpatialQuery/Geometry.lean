import SpatialQuery.Text.Blank
import SpatialQuery.Text.Case

/-!
Types of geometries.
-/

namespace SpatialQuery

/-- The types that a map layer can declare. The dimension of the coordinates is no part of them. -/
inductive GeometryType where
  | geometry
  | point
  | lineString
  | polygon
  | multiPoint
  | multiLineString
  | multiPolygon
  | collection
  deriving DecidableEq, Repr

namespace GeometryType

/-- All types, by the codes they have in binary geometries. -/
def all : List GeometryType :=
  [geometry, point, lineString, polygon, multiPoint, multiLineString, multiPolygon, collection]

def name : GeometryType → String
  | geometry => "Geometry"
  | point => "Point"
  | lineString => "LineString"
  | polygon => "Polygon"
  | multiPoint => "MultiPoint"
  | multiLineString => "MultiLineString"
  | multiPolygon => "MultiPolygon"
  | collection => "GeometryCollection"

/-- The type of a name, in any letter case. -/
def named? (cs : List Char) : Option GeometryType :=
  all.find? fun t => Text.sameLetters t.name.toList cs

/-- The text before a suffix. -/
def dropSuffix? (suffix cs : List Char) : Option (List Char) :=
  if suffix.isSuffixOf cs then some (cs.take (cs.length - suffix.length)) else none

/-- What may follow a name to tell the dimension of the coordinates. -/
def dimensions : List (List Char) :=
  [['Z', 'M'], ['Z'], ['M']]

/-- Reads a name, with or without a dimension behind it. Blanks and letter case make no difference. -/
def ofString? (s : String) : Option GeometryType :=
  let cs := Text.upperChars (s.toList.filter fun c => !Text.isBlank c)
  (named? cs).or (dimensions.findSome? fun suffix => (dropSuffix? suffix cs).bind named?)

/-- The message for a name of no type. -/
def unknownMessage (s : String) : String :=
  s!"Unknown geometry type '{s}'"

/-- The type of a name that is exactly as it is written. -/
def ofName? (s : String) : Option GeometryType :=
  all.find? fun t => t.name == s

/-- The type of a code in binary geometries. -/
def ofCode? (code : Nat) : Option GeometryType :=
  all[code]?

/-- The type of a collection of geometries of one type. -/
def collected : GeometryType → GeometryType
  | point | multiPoint => multiPoint
  | lineString | multiLineString => multiLineString
  | polygon | multiPolygon => multiPolygon
  | geometry | collection => collection

end GeometryType

end SpatialQuery
