import SpatialQuery.Decimal.Reading
import SpatialQuery.Text.Boolean
import SpatialQuery.Value

/-!
Values of texts that have no type.
-/

namespace SpatialQuery.Value

def finiteFloat? (cs : List Char) : Option Float :=
  match Decimal.Literal.read cs with
  | .ok l => some l.toFloat |>.filter Float.isFinite
  | .error _ => none

/-- The narrowest value of a text: an integer, a finite float, a boolean, or the text itself. -/
def narrowest (s : String) : Value :=
  let cs := s.toList
  match (Text.readInt64 cs).toOption, finiteFloat? cs, Text.readBool? cs with
  | some i, _, _ => int i
  | none, some x, _ => float x
  | none, none, some b => bool b
  | none, none, none => text s

end SpatialQuery.Value
