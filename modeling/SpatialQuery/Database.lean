import SpatialQuery.Bytes
import SpatialQuery.SqlType

/-!
Databases as their clients see them: requests go to a database, and it answers or refuses. A session
keeps a record of its requests.
-/

namespace SpatialQuery.Database

/-- The error with which a database refuses a request. -/
structure Refusal where
  /-- The code that the SQL standard gives to the kind of error. -/
  code : String
  message : String
  deriving DecidableEq, Repr

/-- The code of a statement that ran for too long. -/
def Refusal.timeoutCode : String := "57014"

/-- Why there is no connection to a database. -/
inductive Unavailable where
  | unreachable
  | refused (r : Refusal)
  deriving DecidableEq, Repr

def Unavailable.message : Unavailable → String
  | unreachable => "error connecting to server"
  | refused _ => "db error"

/-- What a database makes of a statement: the types of its parameters and the columns of its result. -/
structure Prepared where
  parameters : List SqlType
  columns : List (String × SqlType)
  deriving DecidableEq, Repr

/-- The rows that a database sends, and the error that ends them, if there is one. -/
structure RowStream where
  rows : List (List (Option Bytes))
  refusal : Option Refusal
  deriving DecidableEq, Repr

inductive Request where
  /-- A command without parameters. -/
  | command (sql : String)
  | prepare (sql : String)
  /-- The values for the parameters of the statement that was prepared last. -/
  | bind (values : List Bytes)
  deriving DecidableEq, Repr

/-- A database, by its answers. A statement that does not return has no rows to answer with. -/
structure Server where
  connect : Except Unavailable Unit
  command : String → Except Refusal Unit
  prepare : String → Except Refusal Prepared
  run : String → List Bytes → Option (Except Refusal RowStream)

/-- A database that does not answer. -/
def Server.unreachable : Server :=
  ⟨.error .unreachable, fun _ => .ok (), fun _ => .ok ⟨[], []⟩, fun _ _ => none⟩

/-- A computation that sends requests and may fail. -/
abbrev Session (ε α : Type) := ExceptT ε (StateM (List Request)) α

namespace Session

def send (r : Request) : Session ε Unit :=
  modify (· ++ [r])

def fail (e : ε) : Session ε α :=
  throw e

/-- An answer, or the error that a refusal amounts to. -/
def answer (describe : Refusal → ε) : Except Refusal α → Session ε α
  | .ok a => pure a
  | .error r => throw (describe r)

def command (s : Server) (describe : Refusal → ε) (sql : String) : Session ε Unit := do
  send (.command sql)
  answer describe (s.command sql)

def prepare (s : Server) (describe : Refusal → ε) (sql : String) : Session ε Prepared := do
  send (.prepare sql)
  answer describe (s.prepare sql)

/-- The outcome of a session, and the requests it sent. -/
def outcome (s : Session ε α) : Except ε α × List Request :=
  StateT.run s []

end Session

end SpatialQuery.Database
