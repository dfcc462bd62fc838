/-!
JSON values. Objects keep their fields in order, with repeated names. Whole numbers and other numbers
are different values.
-/

namespace SpatialQuery

inductive Json where
  | null
  | bool (b : Bool)
  | int (i : Int)
  | float (x : Float)
  | str (s : String)
  | arr (items : List Json)
  | obj (fields : List (String × Json))
  /-- What is written correctly but stands for no value: a number out of range, half a surrogate pair,
  or a container that is nested too deeply. -/
  | unreadable
  deriving BEq, Inhabited

namespace Json

mutual

/-- Every part of the value can be read. -/
def readable : Json → Bool
  | arr items => readableItems items
  | obj fields => readableFields fields
  | unreadable => false
  | _ => true

def readableItems : List Json → Bool
  | [] => true
  | j :: js => readable j && readableItems js

def readableFields : List (String × Json) → Bool
  | [] => true
  | (_, j) :: fs => readable j && readableFields fs

end

/-- Puts a field into an object with sorted fields, in the place of one with the same name. -/
def insertField (name : String) (value : Json) : List (String × Json) → List (String × Json)
  | [] => [(name, value)]
  | (n, v) :: fs =>
    if name == n then (name, value) :: fs
    else if name < n then (name, value) :: (n, v) :: fs
    else (n, v) :: insertField name value fs

mutual

/-- The value with objects as maps: the last of several fields with one name counts, and the fields
are sorted. -/
def asMaps : Json → Json
  | arr items => .arr (asMapsItems items)
  | obj fields => .obj (asMapsFields [] fields)
  | j => j

def asMapsItems : List Json → List Json
  | [] => []
  | j :: js => asMaps j :: asMapsItems js

def asMapsFields (done : List (String × Json)) : List (String × Json) → List (String × Json)
  | [] => done
  | (n, j) :: fs => asMapsFields (insertField n (asMaps j) done) fs

end

/-! ## Reading parts of a value -/

def asBool? : Json → Option Bool
  | bool b => some b
  | _ => none

def asString? : Json → Option String
  | str s => some s
  | _ => none

/-- A whole number between `low` and `high`. -/
def asInt? (low high : Int) : Json → Option Int
  | int i => if low ≤ i && i ≤ high then some i else none
  | _ => none

def asNat? (high : Nat) (j : Json) : Option Nat :=
  (j.asInt? 0 high).map Int.toNat

/-- Any number, as a double. -/
def asFloat? : Json → Option Float
  | int i => some (Float.ofInt i)
  | float x => some x
  | _ => none

def asList? (f : Json → Option α) : Json → Option (List α)
  | arr items => items.mapM f
  | _ => none

/-- `null`, or a value. -/
def asOption? (f : Json → Option α) : Json → Option (Option α)
  | null => some none
  | j => (f j).map some

/-- One of several names, as a text, or as the only field of an object, which is `null`. -/
def asName? (names : List (String × α)) : Json → Option α
  | str s => List.lookup s names
  | obj [(s, null)] => List.lookup s names
  | _ => none

/-- The fields of a record with the given names, of which an object may have each once. An array
holds the first fields in order. -/
def record? (names : List String) : Json → Option (List (Option Json))
  | obj fields =>
    if names.all fun n => (fields.filter (·.1 == n)).length ≤ 1 then
      some (names.map fun n => List.lookup n fields)
    else none
  | arr items =>
    if items.length ≤ names.length then
      some (items.map some ++ List.replicate (names.length - items.length) none)
    else none
  | _ => none

/-- A field that must be there. -/
def required (f : Json → Option α) (field : Option Json) : Option α :=
  field.bind f

/-- A field that may be missing. -/
def withDefault (default : α) (f : Json → Option α) : Option Json → Option α
  | none => some default
  | some j => f j

/-- A field that may be missing or `null`. -/
def optional (f : Json → Option α) (field : Option Json) : Option (Option α) :=
  withDefault none (asOption? f) field

/-- A field that is left out if there is no value. -/
def fieldOf (name : String) (f : α → Json) (value : Option α) : List (String × Json) :=
  (value.map fun v => (name, f v)).toList

def ofNat (n : Nat) : Json :=
  .int n

end Json

end SpatialQuery
