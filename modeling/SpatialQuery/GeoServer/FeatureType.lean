import SpatialQuery.View.Error

/-!
Views as feature types. The metadata of a feature type has an entry for the SQL of a view, and where
there is one item in a list, the item may stand for the list.
-/

namespace SpatialQuery

/-- Reads a list, for which its only item may stand. -/
def Json.asOneOrMany? (f : Json → Option α) (j : Json) : Option (List α) :=
  if j.readable then ((f j).map ([·])).or (j.asList? f) else none

namespace GeoServer

/-- A parameter; its kind is told by the regular expression alone. -/
structure VirtualParameter where
  name : String
  default : String
  validator : String
  deriving DecidableEq, Repr

structure VirtualGeometry where
  name : String
  type : String
  srid : Int
  deriving DecidableEq, Repr

structure VirtualTable where
  name : String
  sql : String
  escapeSql : Bool
  keyColumn : Option String
  geometry : VirtualGeometry
  parameters : List VirtualParameter
  deriving DecidableEq, Repr

/-- An entry of the metadata. -/
structure Entry where
  key : String
  table : Option VirtualTable
  deriving DecidableEq, Repr

structure FeatureType where
  name : String
  nativeName : String
  title : String
  /-- The reference system of the coordinates. -/
  srs : String
  enabled : Bool
  entries : List Entry
  deriving DecidableEq, Repr

/-- The key of the entry for the SQL of a view. -/
def Entry.tableKey : String := "JDBC_VIRTUAL_TABLE"

/-! ## Writing -/

def VirtualParameter.toJson (p : VirtualParameter) : Json :=
  .obj [("name", .str p.name), ("defaultValue", .str p.default), ("regexpValidator", .str p.validator)]

def VirtualGeometry.toJson (g : VirtualGeometry) : Json :=
  .obj [("name", .str g.name), ("type", .str g.type), ("srid", .int g.srid)]

def VirtualTable.toJson (t : VirtualTable) : Json :=
  .obj ([("name", .str t.name), ("sql", .str t.sql), ("escapeSql", .bool t.escapeSql)] ++
    Json.fieldOf "keyColumn" .str t.keyColumn ++ [("geometry", t.geometry.toJson)] ++
    (if t.parameters.isEmpty then []
      else [("parameter", .arr (t.parameters.map VirtualParameter.toJson))]))

def Entry.toJson (e : Entry) : Json :=
  .obj (("@key", .str e.key) :: Json.fieldOf "virtualTable" VirtualTable.toJson e.table)

/-- The only entry stands for the list. -/
def entriesToJson : List Entry → Json
  | [e] => e.toJson
  | es => .arr (es.map Entry.toJson)

def FeatureType.toJson (f : FeatureType) : Json :=
  .obj [("featureType", .obj [("name", .str f.name), ("nativeName", .str f.nativeName),
    ("title", .str f.title), ("srs", .str f.srs), ("enabled", .bool f.enabled),
    ("metadata", .obj [("entry", entriesToJson f.entries)])])]

/-! ## Reading -/

def VirtualParameter.ofJson? (j : Json) : Option VirtualParameter := do
  match ← j.record? ["name", "defaultValue", "regexpValidator"] with
  | [name, default, validator] =>
    return {
      name := ← Json.required Json.asString? name
      default := ← Json.withDefault "" Json.asString? default
      validator := ← Json.withDefault "" Json.asString? validator }
  | _ => none

def VirtualGeometry.ofJson? (j : Json) : Option VirtualGeometry := do
  match ← j.record? ["name", "type", "srid"] with
  | [name, type, srid] =>
    return {
      name := ← Json.required Json.asString? name
      type := ← Json.required Json.asString? type
      srid := ← Json.required (Json.asInt? (-0x80000000) 0x7FFFFFFF) srid }
  | _ => none

def VirtualTable.ofJson? (j : Json) : Option VirtualTable := do
  match ← j.record? ["name", "sql", "escapeSql", "keyColumn", "geometry", "parameter"] with
  | [name, sql, escapeSql, keyColumn, geometry, parameters] =>
    return {
      name := ← Json.required Json.asString? name
      sql := ← Json.required Json.asString? sql
      escapeSql := ← Json.withDefault false Json.asBool? escapeSql
      keyColumn := ← Json.optional Json.asString? keyColumn
      geometry := ← Json.required VirtualGeometry.ofJson? geometry
      parameters :=
        (← Json.optional (Json.asOneOrMany? VirtualParameter.ofJson?) parameters).getD [] }
  | _ => none

def Entry.ofJson? (j : Json) : Option Entry := do
  match ← j.record? ["@key", "virtualTable"] with
  | [key, table] =>
    return {
      key := ← Json.required Json.asString? key
      table := ← Json.optional VirtualTable.ofJson? table }
  | _ => none

def entriesOfJson? (j : Json) : Option (List Entry) := do
  match ← j.record? ["entry"] with
  | [entries] => Json.required (Json.asOneOrMany? Entry.ofJson?) entries
  | _ => none

def FeatureType.ofFields? (j : Json) : Option FeatureType := do
  match ← j.record? ["name", "nativeName", "title", "srs", "enabled", "metadata"] with
  | [name, nativeName, title, srs, enabled, metadata] =>
    return {
      name := ← Json.required Json.asString? name
      nativeName := ← Json.withDefault "" Json.asString? nativeName
      title := ← Json.withDefault "" Json.asString? title
      srs := ← Json.withDefault "" Json.asString? srs
      enabled := ← Json.withDefault false Json.asBool? enabled
      entries := ← Json.required entriesOfJson? metadata }
  | _ => none

def FeatureType.ofJson? (j : Json) : Option FeatureType := do
  match ← j.record? ["featureType"] with
  | [fields] => Json.required FeatureType.ofFields? fields
  | _ => none

/-! ## Views -/

def VirtualParameter.ofParameter (p : ViewParameter) : VirtualParameter :=
  ⟨p.name, p.default, p.validator⟩

def VirtualParameter.toParameter (p : VirtualParameter) : ViewParameter :=
  ⟨p.name, .ofValidator p.validator, p.validator, p.default⟩

def VirtualTable.ofView (v : View) : VirtualTable :=
  { name := v.id.name
    sql := v.sql
    escapeSql := false
    keyColumn := v.keyColumn
    geometry := ⟨v.geometry.name, v.geometry.type.name, v.geometry.srid⟩
    parameters := v.parameters.map .ofParameter }

/-- The feature type of a view. -/
def FeatureType.ofView (v : View) : FeatureType :=
  { name := v.id.name
    nativeName := v.id.name
    title := v.id.name
    srs := s!"EPSG:{v.geometry.srid}"
    enabled := true
    entries := [⟨Entry.tableKey, some (.ofView v)⟩] }

/-- The view of a feature type. The first entry with the right key counts. -/
def FeatureType.view (f : FeatureType) (id : ViewId) : Except View.Flaw View :=
  match (f.entries.find? (·.key == Entry.tableKey)).bind (·.table) with
  | none => .error (.notView id)
  | some t =>
    match GeometryType.ofString? t.geometry.type with
    | none => .error (.unknownType t.geometry.type)
    | some type =>
      .ok ⟨id, t.sql, t.parameters.map (·.toParameter), ⟨t.geometry.name, type, t.geometry.srid⟩,
        t.keyColumn⟩

end GeoServer

end SpatialQuery
