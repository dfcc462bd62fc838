import SpatialQuery.Geometry
import SpatialQuery.Text.Integer

/-!
Declared types of spatial columns, as a database writes them: `geometry`, `geometry(Point,4326)`,
`public.geography(Point)`.
-/

namespace SpatialQuery.Geometry

inductive Kind where
  | geometry
  | geography
  deriving DecidableEq, Repr

def Kind.name : Kind → String
  | geometry => "geometry"
  | geography => "geography"

structure Declared where
  kind : Kind
  type : GeometryType
  /-- The reference system, if it is declared and not 0. -/
  srid : Option Int
  deriving DecidableEq, Repr

/-- The reference system of geographies that declare none. -/
def geographySrid : Int := 4326

def trimChars (cs : List Char) : List Char :=
  Text.trimEnd (Text.trimStart cs)

/-- The name of a type without its schema and without quotes around it. -/
def bareName (cs : List Char) : List Char :=
  let own := (cs.reverse.takeWhile (· != '.')).reverse
  ((own.dropWhile (· == '"')).reverse.dropWhile (· == '"')).reverse

def readKind? (cs : List Char) : Option Kind :=
  if Text.sameLetters (bareName cs) "geometry".toList then some .geometry
  else if Text.sameLetters (bareName cs) "geography".toList then some .geography
  else none

/-- What stands in the parentheses: a type, and a reference system if there is a comma. -/
def readModifier? (cs : List Char) : Option (GeometryType × Option Int) :=
  match cs.splitOn ',' with
  | [] => none
  | [type] => (GeometryType.ofString? (String.ofList type)).map (·, none)
  | type :: srid :: _ =>
    match GeometryType.ofString? (String.ofList type), Text.readInt32 (trimChars srid) with
    | some t, .ok n => some (t, some n)
    | _, _ => none

/-- The reference system of a declaration: 0 stands for none, and geographies have one by default. -/
def effectiveSrid : Kind → Option Int → Option Int
  | .geography, none => some geographySrid
  | _, srid => srid.filter (· != 0)

/-- Reads a declared type; other types than spatial ones are none. -/
def Declared.read? (s : String) : Option Declared :=
  let cs := (Text.trim s).toList
  let name := cs.takeWhile (· != '(')
  match cs.dropWhile (· != '(') with
  | [] => (readKind? name).map fun k => ⟨k, .geometry, effectiveSrid k none⟩
  | _ :: rest =>
    if rest.getLast? != some ')' then none
    else
      match readKind? (trimChars name), readModifier? rest.dropLast with
      | some k, some (type, srid) => some ⟨k, type, effectiveSrid k srid⟩
      | _, _ => none

end SpatialQuery.Geometry
