import SpatialQuery.Database.Execution

/-!
Inferring the geometry column of a statement from a database: from the declared types of its columns,
or from one row where they do not tell.
-/

namespace SpatialQuery.Database

open SpatialQuery.Geometry (InferenceError)

/-- The query for the columns of a relation. -/
def catalogQuery : String := "
        SELECT a.attname::text AS name, format_type(a.atttypid, a.atttypmod) AS format_type
        FROM pg_attribute a
            JOIN pg_class c ON c.oid = a.attrelid
            JOIN pg_namespace n ON n.oid = c.relnamespace
        WHERE n.nspname = $1 AND c.relname = $2 AND a.attnum > 0 AND NOT a.attisdropped
        ORDER BY a.attnum"

def catalogFailed (r : Relation) (message : String) : InferenceError :=
  .probe s!"Failed to read columns of {r.schema}.{r.table} Delegate: {message}"

def readText (index : Nat) (cell : Option (Option Bytes)) : Except InferenceError String :=
  match cell.join.bind Bytes.toString? with
  | some s => .ok s
  | none => .error (.probe s!"Delegate: error deserializing column {index}")

/-- A column of the catalog: its name and its type. -/
def readColumn (cells : List (Option Bytes)) : Except InferenceError Catalog.Column := do
  return ⟨← readText 0 cells[0]?, ← readText 1 cells[1]?⟩

/-- Reads the columns of a relation. -/
def readColumns (s : Server) (r : Relation) : Session InferenceError (List Catalog.Column) := do
  let failed := fun (_ : Refusal) => catalogFailed r "db error"
  let _ ← Session.prepare s failed catalogQuery
  let values := [Bytes.ofString r.schema, Bytes.ofString r.table]
  Session.send (.bind values)
  match s.run catalogQuery values with
  | none => Session.fail (catalogFailed r "connection closed")
  | some answer =>
    let stream ← Session.answer failed answer
    match stream.refusal with
    | some e => Session.fail (failed e)
    | none => liftM (stream.rows.mapM readColumn)

/-- Reads the columns of relations; those without columns are left out. -/
def readCatalog (s : Server) : List Relation → Session InferenceError Catalog
  | [] => pure {}
  | r :: rs => do
    let columns ← readColumns s r
    let rest ← readCatalog s rs
    return if columns.isEmpty then rest else rest.insert r columns

/-- The relations that the columns of a result belong to. -/
def outputRelations (outputs : List OutputColumn) : List Relation :=
  (outputs.map fun
    | .single _ r _ _ => r
    | .allOf r => r).foldl (fun rs r => if rs.contains r then rs else rs ++ [r]) []

/-- A statement for one row of another statement's result. -/
def probeSql (sql : String) : String :=
  s!"SELECT * FROM ({sql}) AS \"geoview_probe\" LIMIT 1"

/-- Infers the geometry column from declared types. -/
def inferFromCatalog (cs : Connections) (name : String) (outputs : List OutputColumn) :
    Session InferenceError (Except InferenceError Geometry.Column) :=
  match outputRelations outputs with
  | [] => pure (.error .noGeometry)
  | relations =>
    match connect cs name with
    | .error e => Session.fail (.probe e.message)
    | .ok s => do return Geometry.inferDeclared outputs (← readCatalog s relations)

/-- Infers the geometry column from one row. -/
def inferFromRow (cs : Connections) (policy : Policy) (name : String) (v : Validated) (o : Options)
    (hint : Option String) : Session InferenceError Geometry.Column := do
  let statement := { v.statement with sql := probeSql v.statement.sql }
  match statement.validated policy with
  | .error reason => Session.fail (.probe reason.report)
  | .ok probe =>
    let result ← (execute cs name probe { o with maxRows := 1 }).adapt fun e => .probe e.message
    liftM (result.inferGeometry hint)

/-- Infers the geometry column of a statement. One row is looked at where the declared types leave the
column, its type or its reference system open. -/
def inferGeometry (cs : Connections) (policy : Policy) (name : String) (v : Validated) (o : Options) :
    Session InferenceError Geometry.Column := do
  match ← inferFromCatalog cs name v.statement.outputs with
  | .ok column => return column
  | .error (.ambiguous columns) => Session.fail (.ambiguous columns)
  | .error (.unknownSrid column) => inferFromRow cs policy name v o (some column)
  | .error _ => inferFromRow cs policy name v o none

end SpatialQuery.Database
