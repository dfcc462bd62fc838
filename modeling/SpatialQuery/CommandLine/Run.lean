import SpatialQuery.CommandLine.Command
import SpatialQuery.Database.ConnectionString
import SpatialQuery.Database.Inference
import SpatialQuery.Definition.Compiled
import SpatialQuery.GeoServer
import SpatialQuery.Settings
import SpatialQuery.Store.File
import SpatialQuery.Value.Reading
import SpatialQuery.View.Template

/-!
What commands do: they read the files, the databases and the map servers that a host gives them, and
print. The first thing that goes wrong ends a command.
-/

namespace SpatialQuery.CommandLine

/-- What a command finds around it. -/
structure Host (m : Type → Type) where
  file : String → m Store.File
  /-- Writes a file; the answer is whether it could be written. -/
  write : String → String → m Bool
  now : m Calendar.DateTime
  /-- The database of a connection string. -/
  server : String → m Database.Server
  network : Http.Network m

/-- What a command has printed, and what it has asked a database. -/
structure Printed where
  output : String := ""
  notes : String := ""
  requests : List Database.Request := []
  deriving DecidableEq, Repr

/-- A command that may fail with a message. -/
abbrev Action (m : Type → Type) (α : Type) := ExceptT String (StateT Printed m) α

namespace Action

variable {m : Type → Type} [Monad m]

def print (j : Json) : Action m Unit :=
  modify fun p => { p with output := p.output ++ j.pretty ++ "\n" }

/-- Prints a line that is no part of the output. -/
def note (line : String) : Action m Unit :=
  modify fun p => { p with notes := p.notes ++ line ++ "\n" }

/-- Goes on with a result, or fails with the message of an error. -/
def orFail (message : ε → String) (r : Except ε α) : Action m α :=
  liftM (r.mapError message)

def ofHost (a : m α) : Action m α :=
  liftM (liftM a : StateT Printed m α)

/-- Goes on with the result of a session, whose requests are kept. -/
def ofSession (message : ε → String) (s : Database.Session ε α) : Action m α := do
  let (r, requests) := s.outcome
  modify fun p => { p with requests := p.requests ++ requests }
  orFail message r

def ofService (s : ExceptT View.PublishError m α) : Action m α := do
  orFail View.PublishError.message (← ofHost s.run)

end Action

open SpatialQuery.CommandLine.Action

variable {m : Type → Type} [Monad m]

/-! ## Statements -/

def loadDefinition (h : Host m) (path : String) : Action m Definition := do
  match ← ofHost (h.file path) with
  | .text content =>
    match (Json.read? content).bind Definition.ofJson? with
    | some d => return d
    | none => throw s!"{path} is not a valid query definition"
  | _ => throw s!"Failed to read {path}"

def compileFile (h : Host m) (path : String) : Action m Statement := do
  orFail Definition.Malformed.report (← loadDefinition h path).statement

def loadStatement (h : Host m) : Source → Action m Statement
  | .text sql values => return .ofText sql (values.map Value.narrowest)
  | .file path => compileFile h path

def loadValidated (h : Host m) (s : Settings) (source : Source) : Action m Validated := do
  orFail Rejection.report ((← loadStatement h source).validated s.policy)

/-! ## Databases -/

/-- The name of the only connection. -/
def connectionName : String := "default"

/-- The connection to the database that is asked for, or to the one of the settings. -/
def connections (h : Host m) (s : Settings) (r : Running) : Action m Database.Connections := do
  let url ← match r.database with
    | some url => pure url
    | none => orFail Settings.Error.message s.requireDatabaseUrl
  if (Database.ConnectionString.read? url).isNone then throw Database.ConnectionString.invalidMessage
  return [(connectionName, ← ofHost (h.server url))]

def options (s : Settings) (r : Running) : Database.Options :=
  { maxRows := r.maxRows.getD s.maxRows, timeoutMs := r.timeoutMs.getD s.timeoutMs }

/-! ## Commands -/

def validateStatement (h : Host m) (s : Settings) (source : Source) : Action m Unit := do
  let statement ← loadStatement h source
  let verdict := validate s.policy statement.sql (some statement.parameters.length)
  print verdict.toJson
  match verdict with
  | .accept => note "Accepted"
  | .rewrite .. => note "Accepted after rewriting"
  | .reject _ => throw "Rejected"

def runStatement (h : Host m) (s : Settings) (source : Source) (r : Running) : Action m Unit := do
  let v ← loadValidated h s source
  let cs ← connections h s r
  let o := options s r
  let result ← ofSession Database.ExecutionError.message (Database.execute cs connectionName v o)
  print result.toJson
  if result.truncated then note s!"Result truncated to {o.maxRows} rows"

def inferStatement (h : Host m) (s : Settings) (source : Source) (r : Running) : Action m Unit := do
  let v ← loadValidated h s source
  let cs ← connections h s r
  let column ← ofSession Geometry.InferenceError.message
    (Database.inferGeometry cs s.policy connectionName v (options s r))
  print column.toJson

/-- The geometry column that is given or inferred. -/
def publishedGeometry (h : Host m) (s : Settings) (p : Publication) (v : Validated) :
    Action m Geometry.Column := do
  match p.geometry with
  | some column => return column
  | none =>
    let cs ← connections h s p.running
    let advice := "Supply --geometry-column, --geometry-type and --srid to publish without inference"
    ofSession (fun _ => advice) (Database.inferGeometry cs s.policy connectionName v (options s p.running))

def viewId (t : Target) : Action m ViewId :=
  orFail View.PublishError.message (View.readId t.workspace t.datastore t.name)

/-- The service of the map server that the settings name. -/
def openService (h : Host m) (s : Settings) : Action m (Service m) := do
  match s.mapServer with
  | none => throw "GEOSERVER_URL must be set to publish views"
  | some access =>
    let g ← orFail View.PublishError.message (GeoServer.ofUrl access.url access.user access.password)
    return g.service h.network

def publishView (h : Host m) (s : Settings) (p : Publication) : Action m Unit := do
  let id ← viewId p.target
  let v ← loadValidated h s p.source
  let geometry ← publishedGeometry h s p v
  let service ← openService h s
  let endpoints ←
    if p.update then ofService (service.revise id v (some geometry))
    else do
      let view ← orFail View.PublishError.message (View.ofStatement id v (some geometry) p.keyColumn)
      ofService (service.publish view)
  note s!"Published {endpoints.layer}"
  print endpoints.toJson

def unpublishView (h : Host m) (s : Settings) (t : Target) : Action m Unit := do
  let id ← viewId t
  let service ← openService h s
  ofService (service.unpublish id)
  note s!"Unpublished {id.layer}"

/-! ### Saved queries -/

/-- The store of an installation that names none. -/
def defaultStorePath : String := "geoview-queries.json"

def storePath (s : Settings) : String :=
  s.storePath.getD defaultStorePath

def writeStore (h : Host m) (s : Settings) : Store.File → Action m Unit
  | .text content => do
    if !(← ofHost (h.write (storePath s) content)) then throw Store.Error.file.report
  | _ => pure ()

def saveQuery (h : Host m) (s : Settings) (path : String) (name : Option String) : Action m Unit := do
  let d ← loadDefinition h path
  let d := { d with name := name.or d.name }
  let _ ← orFail Definition.Malformed.report d.statement
  let (q, file) ← orFail Store.Error.report ((← ofHost (h.file (storePath s))).save (← ofHost h.now) d)
  writeStore h s file
  note s!"Saved {q.key.display} (revision {q.revision})"

def listQueries (h : Host m) (s : Settings) (schema : Option String) : Action m Unit := do
  let queries ← orFail Store.Error.report ((← ofHost (h.file (storePath s))).list schema)
  print (.arr (queries.map SavedQuery.toJson))

def deleteQuery (h : Host m) (s : Settings) (key : QueryKey) : Action m Unit := do
  let (found, file) ← orFail Store.Error.report ((← ofHost (h.file (storePath s))).delete key)
  writeStore h s file
  if !found then throw s!"No saved query {key.display}"
  note s!"Deleted {key.display}"

/-- Runs a command. -/
def Command.action (h : Host m) (s : Settings) : Command → Action m Unit
  | compile path => do print (← compileFile h path).toJson
  | validate source => validateStatement h s source
  | run source r => runStatement h s source r
  | infer source r => inferStatement h s source r
  | publish p => publishView h s p
  | unpublish t => unpublishView h s t
  | save path name => saveQuery h s path name
  | list schema => listQueries h s schema
  | delete name table schema => deleteQuery h s ⟨schema.getD Relation.publicSchema, table, name⟩

/-- Runs a command in an environment, and tells what it printed and how it failed, if it did. -/
def Command.perform (h : Host m) (e : Environment) (c : Command) : m (Option String × Printed) := do
  let action : Action m Unit := do c.action h (← orFail Settings.Error.message (Settings.read e))
  let (r, printed) ← action.run.run {}
  match r with
  | .ok () => return (none, printed)
  | .error message => return (some message, printed)

end SpatialQuery.CommandLine
