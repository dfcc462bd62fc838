import SpatialQuery.Catalog
import SpatialQuery.Geometry.Declared
import SpatialQuery.Statement

/-!
The geometry column of a result: which it is, and its type and reference system. They are inferred
from the declared types of the columns.
-/

namespace SpatialQuery.Geometry

/-- The geometry column of a result, as a map layer needs it. -/
structure Column where
  name : String
  type : GeometryType
  srid : Int
  deriving DecidableEq, Repr

def Column.toJson (c : Column) : Json :=
  .obj [("column", .str c.name), ("geometryType", .str c.type.name), ("srid", .int c.srid)]

inductive InferenceError where
  | noGeometry
  | ambiguous (columns : List String)
  | unknownSrid (column : String)
  | noSample (column : String)
  | probe (message : String)
  deriving DecidableEq, Repr

namespace InferenceError

def code : InferenceError → String
  | noGeometry => "NoGeometryColumn"
  | ambiguous _ => "Ambiguous"
  | unknownSrid _ => "UnknownSrid"
  | noSample _ => "NoSampleValue"
  | probe _ => "Probe"

def message : InferenceError → String
  | noGeometry => "The result has no geometry column"
  | ambiguous columns => "The result has several geometry columns: " ++ ", ".intercalate columns
  | unknownSrid column => s!"Unable to determine the SRID of column '{column}'"
  | noSample column => s!"No non-null value to sample in column '{column}'"
  | probe m => s!"Probe query failed: {m}"

end InferenceError

/-- The name is one that geometry columns usually have. -/
def isUsualName (name : String) : Bool :=
  let cs := name.toList.map Char.toLower
  ["geom", "the_geom", "geometry", "wkb_geometry", "shape"].any (·.toList == cs) ||
    "_geom".toList.isSuffixOf cs

/-- A column that is or may be the geometry, with what is known of it. -/
structure Candidate where
  column : String
  declared : Option (GeometryType × Option Int)
  deriving DecidableEq, Repr

/-- The type and the reference system of an aggregate of geometries, if it is a geometry. -/
def aggregated (d : Declared) : Option Aggregate → Option (GeometryType × Option Int)
  | none | some .min | some .max => some (d.type, d.srid)
  | some .union => some (.geometry, d.srid)
  | some .collect => some (d.type.collected, d.srid)
  | some .extent | some .count | some .sum | some .avg => none

/-- The aggregate of a geometry is a geometry. -/
def keepsGeometry : Option Aggregate → Bool
  | none | some .min | some .max | some .union | some .collect => true
  | some .extent | some .count | some .sum | some .avg => false

/-- The columns of an output that are declared as geometries. -/
def declaredIn (catalog : Catalog) : OutputColumn → List Candidate
  | .single name r (some column) aggregate =>
    match (catalog.declaredType? r column).map Declared.read? with
    | some (some d) => ((aggregated d aggregate).map fun g => ⟨name, some g⟩).toList
    | _ => []
  | .single _ _ none _ => []
  | .allOf r =>
    ((catalog.columns? r).getD []).filterMap fun c =>
      (Declared.read? c.declaredType).map fun d => ⟨c.name, some (d.type, d.srid)⟩

/-- The column of an output that is not in the catalog but has a name like a geometry. -/
def namedIn (catalog : Catalog) : OutputColumn → List Candidate
  | .single name r (some column) aggregate =>
    if (catalog.declaredType? r column).isNone && keepsGeometry aggregate &&
        (isUsualName column || isUsualName name) then
      [⟨name, none⟩]
    else []
  | _ => []

/-- The only one of several candidates. -/
def choose : List Candidate → Except InferenceError Column
  | [] => .error .noGeometry
  | [⟨column, some (type, some srid)⟩] => .ok ⟨column, type, srid⟩
  | [c] => .error (.unknownSrid c.column)
  | cs => .error (.ambiguous (cs.map (·.column)))

/-- Infers the geometry column from the declared types. A declared column is preferred to one that
only has a usual name. -/
def inferDeclared (outputs : List OutputColumn) (catalog : Catalog) : Except InferenceError Column :=
  match outputs.flatMap (declaredIn catalog) with
  | [] => choose (outputs.flatMap (namedIn catalog))
  | declared => choose declared

end SpatialQuery.Geometry
