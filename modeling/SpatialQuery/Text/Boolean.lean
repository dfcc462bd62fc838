/-!
Reading booleans.
-/

namespace SpatialQuery.Text

def readBool? (cs : List Char) : Option Bool :=
  if cs == "true".toList then some true
  else if cs == "false".toList then some false
  else none

/-- The message for a text that is no boolean. -/
def notBoolMessage : String :=
  "provided string was not \x60true\x60 or \x60false\x60"

end SpatialQuery.Text
