import SpatialQuery.CommandLine.Form
import SpatialQuery.Geometry.Column
import SpatialQuery.Text.Integer

/-!
The commands of the program.
-/

namespace SpatialQuery.CommandLine

/-- Where a statement comes from. -/
inductive Source where
  | text (sql : String) (values : List String)
  /-- The file of a definition. -/
  | file (path : String)
  deriving DecidableEq, Repr

/-- How a statement runs, where the settings do not apply. -/
structure Running where
  database : Option String
  maxRows : Option Nat
  timeoutMs : Option Nat
  deriving DecidableEq, Repr

/-- The parts of the identity of a view. -/
structure Target where
  workspace : String
  datastore : String
  name : String
  deriving DecidableEq, Repr

structure Publication where
  target : Target
  source : Source
  update : Bool
  /-- The geometry column, where it is not to be inferred. -/
  geometry : Option Geometry.Column
  keyColumn : Option String
  running : Running
  deriving DecidableEq, Repr

inductive Command where
  | compile (path : String)
  | validate (s : Source)
  | run (s : Source) (r : Running)
  | infer (s : Source) (r : Running)
  | publish (p : Publication)
  | unpublish (t : Target)
  | save (path : String) (name : Option String)
  | list (schema : Option String)
  | delete (name table : String) (schema : Option String)
  deriving DecidableEq, Repr

/-! ## Forms -/

def checkPath (s : String) : Except Usage Unit :=
  if s.isEmpty then .error .missingValue else .ok ()

def checkNat64 (s : String) : Except Usage Unit :=
  match Text.readNat64 s.toList with
  | .ok _ => .ok ()
  | .error _ => .error .invalidValue

def checkInt32 (s : String) : Except Usage Unit :=
  match Text.readInt32 s.toList with
  | .ok _ => .ok ()
  | .error _ => .error .invalidValue

def checkGeometryType (s : String) : Except Usage Unit :=
  if (GeometryType.ofString? s).isSome then .ok () else .error .invalidValue

def definition : Parameter :=
  { name := "definition", check := checkPath, required := true }

/-- A definition, or SQL in place of it. -/
def sourceOperand : Parameter :=
  { name := "definition", check := checkPath, alternative := some "sql" }

def sourceOptions : List Parameter :=
  [{ name := "sql", excludes := ["definition"] }, { name := "param", shape := .values, needs := ["sql"] }]

def database : Parameter :=
  { name := "database" }

def timeout : Parameter :=
  { name := "timeout-ms", check := checkNat64 }

def target : List Parameter :=
  [{ name := "workspace", required := true }, { name := "datastore", required := true },
    { name := "name", required := true }]

def geometryOptions : List Parameter :=
  [{ name := "geometry-column", needs := ["geometry-type", "srid"] },
    { name := "geometry-type", check := checkGeometryType, needs := ["geometry-column"] },
    { name := "srid", check := checkInt32, needs := ["geometry-column"] }]

def queryForms : List Form :=
  [{ name := "save", operand := some definition, options := [{ name := "name" }] },
    { name := "list", options := [{ name := "schema" }] },
    { name := "delete"
      operand := some { name := "name", required := true }
      options := [{ name := "table", required := true }, { name := "schema" }] }]

def forms : List Form :=
  [{ name := "compile", operand := some definition },
    { name := "validate", operand := some sourceOperand, options := sourceOptions },
    { name := "run"
      operand := some sourceOperand
      options := sourceOptions ++ [database, { name := "max-rows", check := checkNat64 }, timeout] },
    { name := "infer", operand := some sourceOperand, options := sourceOptions ++ [database, timeout] },
    { name := "publish"
      operand := some sourceOperand
      options := sourceOptions ++ target ++ [{ name := "update", shape := .switch }] ++ geometryOptions ++
        [{ name := "key-column", excludes := ["update"] }, database, timeout] },
    { name := "unpublish", options := target },
    { name := "query", forms := queryForms }]

/-- The form of the program. -/
def program : Form :=
  { name := "geoview", forms, versioned := true }

/-! ## Commands -/

namespace Invocation

def text (i : Invocation) (name : String) : String :=
  (i.get? name).getD ""

def nat? (i : Invocation) (name : String) : Option Nat :=
  (i.get? name).bind fun s => (Text.readNat64 s.toList).toOption

def source (i : Invocation) : Source :=
  match i.get? "sql" with
  | some sql => .text sql (i.values "param")
  | none => .file (i.text "definition")

def running (i : Invocation) : Running :=
  ⟨i.get? "database", i.nat? "max-rows", i.nat? "timeout-ms"⟩

def target (i : Invocation) : Target :=
  ⟨i.text "workspace", i.text "datastore", i.text "name"⟩

def geometry (i : Invocation) : Option Geometry.Column := do
  return ⟨← i.get? "geometry-column", ← GeometryType.ofString? (← i.get? "geometry-type"),
    ← (Text.readInt32 (← i.get? "srid").toList).toOption⟩

def publication (i : Invocation) : Publication :=
  ⟨i.target, i.source, i.has "update", i.geometry, i.get? "key-column", i.running⟩

/-- The command that is reached by the names. -/
def command (i : Invocation) : Except Usage Command :=
  match i.path with
  | ["compile"] => .ok (.compile (i.text "definition"))
  | ["validate"] => .ok (.validate i.source)
  | ["run"] => .ok (.run i.source i.running)
  | ["infer"] => .ok (.infer i.source i.running)
  | ["publish"] => .ok (.publish i.publication)
  | ["unpublish"] => .ok (.unpublish i.target)
  | ["query", "save"] => .ok (.save (i.text "definition") (i.get? "name"))
  | ["query", "list"] => .ok (.list (i.get? "schema"))
  | ["query", "delete"] => .ok (.delete (i.text "name") (i.text "table") (i.get? "schema"))
  | _ => .error .unknownCommand

end Invocation

/-- The command of arguments. -/
def Command.ofArguments (arguments : List String) : Except Usage Command := do
  (← program.read arguments).command

end SpatialQuery.CommandLine
