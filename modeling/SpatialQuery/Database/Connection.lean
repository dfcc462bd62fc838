import SpatialQuery.Database

/-!
Connections to databases, by their names.
-/

namespace SpatialQuery.Database

inductive ConnectionError where
  | unknown (connection : String)
  | unavailable (u : Unavailable)
  deriving DecidableEq, Repr

def ConnectionError.message : ConnectionError → String
  | unknown connection => s!"Unknown connection '{connection}'"
  | unavailable u => s!"Pool: Error occurred while creating a new object: {u.message}"

/-- The databases that can be reached. -/
abbrev Connections := List (String × Server)

def connect (cs : Connections) (name : String) : Except ConnectionError Server :=
  match List.lookup name cs with
  | none => .error (.unknown name)
  | some s =>
    match s.connect with
    | .ok () => .ok s
    | .error u => .error (.unavailable u)

end SpatialQuery.Database
