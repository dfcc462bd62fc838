import SpatialQuery.Decimal.Shortest
import SpatialQuery.Json

/-!
Values that are bound to the parameters of a statement.
-/

namespace SpatialQuery

/-- A value for a parameter. Integers have 64 bits. Values are compared as the numbers they are, so
the two zeros are equal. -/
inductive Value where
  | bool (b : Bool)
  | int (i : Int)
  | float (x : Float)
  | text (s : String)
  deriving BEq, Inhabited

namespace Value

def asText : Value → String
  | bool b => if b then "true" else "false"
  | int i => toString i
  | float x => Decimal.plain.text x
  | text s => s

/-- The value as messages show it, with quotes around a text. -/
def display : Value → String
  | text s => s!"'{s}'"
  | v => v.asText

def toJson : Value → Json
  | bool b => .bool b
  | int i => .int i
  | float x => .float x
  | text s => .str s

/-- The range of integer values. -/
def minInt : Int := -0x8000000000000000

def maxInt : Int := 0x7FFFFFFFFFFFFFFF

/-- Integers out of range are read as floats. -/
def ofJson? : Json → Option Value
  | .bool b => some (.bool b)
  | .int i => some (if minInt ≤ i && i ≤ maxInt then .int i else .float (Float.ofInt i))
  | .float x => some (.float x)
  | .str s => some (.text s)
  | _ => none

end Value

end SpatialQuery
