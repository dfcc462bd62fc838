import SpatialQuery.Database.Connection
import SpatialQuery.Database.Result
import SpatialQuery.Validation
import SpatialQuery.Value.Binding

/-!
Running statements. A statement runs in a transaction that only reads, with a time limit, and its rows
are read up to a maximum.
-/

namespace SpatialQuery.Database

inductive ExecutionError where
  | timedOut (milliseconds : Nat)
  | cancelled
  | connection (e : ConnectionError)
  | queryFailed (message : String)
  | decodeFailed (column typeName message : String)
  deriving DecidableEq, Repr

/-- A duration in seconds with a fraction, or in milliseconds below one second. -/
def durationText (milliseconds : Nat) : String :=
  if milliseconds == 0 then "0ns"
  else if milliseconds < 1000 then s!"{milliseconds}ms"
  else
    let fraction := (Calendar.padded 3 (milliseconds % 1000)).reverse.dropWhile (· == '0')
    let point := if fraction.isEmpty then [] else '.' :: fraction.reverse
    s!"{milliseconds / 1000}{String.ofList point}s"

namespace ExecutionError

def code : ExecutionError → String
  | timedOut _ => "TimedOut"
  | cancelled => "Cancelled"
  | connection _ => "ConnectionError"
  | queryFailed _ => "QueryFailed"
  | decodeFailed .. => "DecodeFailed"

def message : ExecutionError → String
  | timedOut ms => s!"Statement timed out after {durationText ms}"
  | cancelled => "Statement was cancelled"
  | connection e => s!"Connection error: {e.message}"
  | queryFailed m => m
  | decodeFailed column typeName m => s!"Failed to decode column '{column}' of type {typeName}: {m}"

/-- The statement may succeed when it is tried again. -/
def isRecoverable : ExecutionError → Bool
  | timedOut _ | connection _ => true
  | _ => false

end ExecutionError

structure Options where
  maxRows : Nat := 10000
  timeoutMs : Nat := 30000
  cancelled : Bool := false
  deriving DecidableEq, Repr

/-- What a refusal means for the statement. -/
def Options.describe (o : Options) (r : Refusal) : ExecutionError :=
  if r.code == Refusal.timeoutCode then .timedOut o.timeoutMs else .queryFailed r.message

/-- The first items of a stream, converted, and whether there are more of them. Nothing behind the first item that is
too many is read. -/
def collect {m : Type → Type} [Monad m] {α β : Type} (next : m (Option β)) (convert : β → m α) :
    Nat → m (List α × Bool)
  | 0 => do return ([], (← next).isSome)
  | n + 1 => do
    match ← next with
    | none => return ([], false)
    | some b =>
      let a ← convert b
      let (as, more) ← collect next convert n
      return (a :: as, more)

/-- The next item of a stream that is a list. -/
def nextItem {ε β : Type} : ExceptT ε (StateM (List (Except ε β))) (Option β) := fun
  | [] => (.ok none, [])
  | item :: items => (item.map some, items)

def collectCapped {ε α β : Type} (convert : β → Except ε α) (n : Nat) (items : List (Except ε β)) :
    Except ε (List α × Bool) :=
  ((collect nextItem (fun b => liftM (convert b)) n).run.run items).1

/-- Reads a cell; the number of its column is for the error. -/
def readCell (index : Nat) (name : String) (t : SqlType) : Option Bytes → Except ExecutionError Cell
  | none => .ok .null
  | some bs =>
    match Cell.read? t bs with
    | some c => .ok c
    | none =>
      .error (.decodeFailed name t.typeName
        (if t == .numeric then "Truncated numeric value" else s!"error deserializing column {index}"))

def readCells (index : Nat) : List (String × SqlType) → List (Option Bytes) → Except ExecutionError Row
  | (name, t) :: columns, bs :: rest =>
    match readCell index name t bs with
    | .error e => .error e
    | .ok c => (readCells (index + 1) columns rest).map ((name, c) :: ·)
  | _, _ => .ok []

/-- The bytes of the values for parameters, or the number of the first value that does not fit. -/
def bindAll (index : Nat) : List Value → List SqlType → Except Nat (List Bytes)
  | v :: vs, t :: ts =>
    match v.bind t with
    | .error _ => .error index
    | .ok bs => (bindAll (index + 1) vs ts).map (bs :: ·)
  | _, _ => .ok []

def bindParameters (values : List Value) (types : List SqlType) : Except ExecutionError (List Bytes) :=
  if values.length != types.length then
    .error (.queryFailed s!"expected {types.length} parameters but got {values.length}")
  else (bindAll 0 values types).mapError fun i => .queryFailed s!"error serializing parameter {i}"

/-- The rows of a stream with the error at their end. -/
def RowStream.items (describe : Refusal → ε) (r : RowStream) : List (Except ε (List (Option Bytes))) :=
  r.rows.map .ok ++ (r.refusal.map fun e => .error (describe e)).toList

/-- Runs a statement in a transaction of its own. -/
def runStatement (s : Server) (statement : Statement) (o : Options) : Session ExecutionError ResultSet := do
  Session.command s o.describe "START TRANSACTION READ ONLY"
  Session.command s o.describe s!"SET LOCAL statement_timeout = {o.timeoutMs}"
  let prepared ← Session.prepare s o.describe statement.sql
  let values ← liftM (bindParameters statement.parameters prepared.parameters)
  Session.send (.bind values)
  match s.run statement.sql values with
  | none => Session.fail (.timedOut o.timeoutMs)
  | some answer =>
    let stream ← Session.answer o.describe answer
    let (rows, truncated) ←
      liftM (collectCapped (readCells 0 prepared.columns) o.maxRows (stream.items o.describe))
    Session.command s o.describe "COMMIT"
    return ⟨prepared.columns.map fun (name, t) => (name, t.typeName), rows, truncated⟩

/-- Runs a statement that was validated on a connection. -/
def execute (cs : Connections) (name : String) (v : Validated) (o : Options) :
    Session ExecutionError ResultSet :=
  match connect cs name with
  | .error e => Session.fail (.connection e)
  | .ok s => if o.cancelled then Session.fail .cancelled else runStatement s v.statement o

end SpatialQuery.Database
