import SpatialQuery.Calendar
import SpatialQuery.Geometry.Column
import SpatialQuery.Geometry.Header
import SpatialQuery.Json.Reading
import SpatialQuery.Numeric
import SpatialQuery.SqlType
import SpatialQuery.Uuid

/-!
Results of statements: rows of cells, read from the bytes that a database sends for each type.
-/

namespace SpatialQuery.Database

/-- The bytes of a geometry, and what its header tells. -/
structure GeometryCell where
  type : Option GeometryType
  srid : Option Int
  bytes : Bytes
  deriving DecidableEq, Repr

inductive Cell where
  | null
  | bool (b : Bool)
  | int (i : Int)
  | float (x : Float)
  | numeric (text : String)
  | text (s : String)
  | json (j : Json)
  | uuid (bytes : Bytes)
  | date (d : Calendar.Date)
  | timestamp (t : Calendar.DateTime)
  | timestamptz (t : Calendar.DateTime)
  | geometry (g : GeometryCell)
  | bytes (bs : Bytes)
  /-- A value of another type. -/
  | raw (typeName : String) (bytes : Bytes)
  deriving BEq

namespace Cell

def ofGeometry (bs : Bytes) : Cell :=
  let header := Geometry.Header.read? bs
  .geometry ⟨header.map (·.type), header.bind (·.srid), bs⟩

/-- An integer of so many bytes. -/
def readInt? (width : Nat) (bs : Bytes) : Option Cell :=
  if bs.length == width then some (.int (Bytes.toInt bs)) else none

def readBool? : Bytes → Option Cell
  | [b] => some (.bool (b != 0))
  | _ => none

def readFloat4? (bs : Bytes) : Option Cell :=
  if bs.length == 4 then some (.float (Float32.ofBits bs.toNat.toUInt32).toFloat) else none

def readFloat8? (bs : Bytes) : Option Cell :=
  if bs.length == 8 then some (.float (Float.ofBits bs.toNat.toUInt64)) else none

def readJson? (bs : Bytes) : Option Cell :=
  ((Bytes.toString? bs).bind Json.readAll?).map fun j => .json j.asMaps

def readDate? (bs : Bytes) : Option Cell :=
  if bs.length == 4 then (Calendar.Date.ofDayNumber? bs.toInt).map .date else none

def readTime? (bs : Bytes) : Option Calendar.DateTime :=
  if bs.length == 8 then Calendar.DateTime.ofMicros? bs.toInt else none

/-- Reads the bytes of a value of a type. -/
def read? (t : SqlType) (bs : Bytes) : Option Cell :=
  match t with
  | .bool => readBool? bs
  | .int2 => readInt? 2 bs
  | .int4 => readInt? 4 bs
  | .int8 => readInt? 8 bs
  | .float4 => readFloat4? bs
  | .float8 => readFloat8? bs
  | .numeric => (Numeric.decode? bs).map .numeric
  | .text | .varchar | .bpchar | .name => (Bytes.toString? bs).map .text
  | .json => readJson? bs
  -- The first byte is the version of the format.
  | .jsonb => if bs.head? == some 1 then readJson? bs.tail else none
  | .uuid => if bs.length == 16 then some (.uuid bs) else none
  | .date => readDate? bs
  | .timestamp => (readTime? bs).map .timestamp
  | .timestamptz => (readTime? bs).map .timestamptz
  | .bytea => some (.bytes bs)
  | .unknown => some (.raw t.typeName bs)
  | .other _ => if t.isSpatial then some (.ofGeometry bs) else some (.raw t.typeName bs)

/-- Numbers that JSON does not have are written as null. -/
def toJson : Cell → Json
  | null => .null
  | bool b => .bool b
  | int i => .int i
  | float x => if x.isFinite then .float x else .null
  | numeric s => .str s
  | text s => .str s
  | json j => j
  | uuid bs => .str (Uuid.text bs)
  | date d => .str (String.ofList d.text)
  | timestamp t => .str (String.ofList t.text)
  | timestamptz t => .str (String.ofList t.utcText)
  | geometry g =>
    .obj [("geometryType", (g.type.map fun t => Json.str t.name).getD .null),
      ("srid", (g.srid.map Json.int).getD .null), ("ewkb", .str g.bytes.toHex)]
  | bytes bs => .str bs.toHex
  | raw typeName bs => .obj [("typeName", .str typeName), ("raw", .str bs.toHex)]

end Cell

/-- A row: the names and the cells of its columns. -/
abbrev Row := List (String × Cell)

/-- The first cell of a name. -/
def Row.get? (r : Row) (name : String) : Option Cell :=
  List.lookup name r

structure ResultSet where
  /-- The names of the columns and of their types. -/
  columns : List (String × String)
  rows : List Row
  /-- There were more rows than were asked for. -/
  truncated : Bool
  deriving BEq

def ResultSet.toJson (r : ResultSet) : Json :=
  .obj [("columns", .arr (r.columns.map fun (n, t) => .obj [("name", .str n), ("typeName", .str t)])),
    ("rows", .arr (r.rows.map fun row => .obj (row.map fun (n, c) => (n, c.toJson)))),
    ("truncated", .bool r.truncated)]

/-- The name of the column to look at: the hint, if it names a spatial column, otherwise the only
spatial column. -/
def sampledColumn (spatial : List String) (hint : Option String) :
    Except Geometry.InferenceError String :=
  match hint.filter spatial.contains, spatial with
  | some name, _ => .ok name
  | none, [] => .error .noGeometry
  | none, [name] => .ok name
  | none, names => .error (.ambiguous names)

/-- The spatial columns of a result. -/
def ResultSet.spatialColumns (r : ResultSet) : List String :=
  (r.columns.filter fun (_, t) => (SqlType.ofName t).isSpatial).map (·.1)

/-- Infers the geometry column from the first row. -/
def ResultSet.inferGeometry (r : ResultSet) (hint : Option String) :
    Except Geometry.InferenceError Geometry.Column :=
  match sampledColumn r.spatialColumns hint with
  | .error e => .error e
  | .ok name =>
    match r.rows.head?.bind (Row.get? · name) with
    | some (.geometry ⟨some type, some srid, _⟩) => .ok ⟨name, type, srid⟩
    | some (.geometry _) => .error (.unknownSrid name)
    | _ => .error (.noSample name)

end SpatialQuery.Database
