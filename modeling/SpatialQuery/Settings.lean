import SpatialQuery.Database.Execution
import SpatialQuery.Environment
import SpatialQuery.Policy

/-!
The settings of an installation, read from its environment.
-/

namespace SpatialQuery

/-- Where the map server is, and who asks it. -/
structure MapServer where
  url : String
  user : String
  password : String
  deriving DecidableEq, Repr

structure Settings where
  databaseUrl : Option String
  poolSize : Nat
  policy : Policy
  maxRows : Nat
  timeoutMs : Nat
  /-- The file in which queries are saved. -/
  storePath : Option String
  mapServer : Option MapServer
  deriving DecidableEq, Repr

namespace Settings

inductive Error where
  | environment (e : Environment.Error)
  | notPositive (key : String)
  | missing (key : String)
  deriving DecidableEq, Repr

namespace Error

def code : Error → String
  | environment _ => "InvalidEnvironment"
  | notPositive _ => "InvalidConfig"
  | missing _ => "MissingConfig"

def message : Error → String
  | environment e => e.message
  | notPositive key => s!"Invalid value for {key}: must be greater than zero"
  | missing key => s!"{key} must be set"

end Error

def databaseUrlKey : String := "GEOVIEW_POSTGRES_URL"

def poolSizeKey : String := "GEOVIEW_CONNECTION_POOL_SIZE"

def defaultLimitKey : String := "GEOVIEW_DEFAULT_LIMIT"

def maxLimitKey : String := "GEOVIEW_MAX_LIMIT"

def maxRowsKey : String := "GEOVIEW_MAX_ROWS"

def timeoutKey : String := "GEOVIEW_STATEMENT_TIMEOUT_MS"

def allowUnionKey : String := "GEOVIEW_ALLOW_UNION"

def allowedRelationsKey : String := "GEOVIEW_ALLOWED_RELATIONS"

def storePathKey : String := "GEOVIEW_QUERY_STORE"

def mapServerUrlKey : String := "GEOSERVER_URL"

def mapServerUserKey : String := "GEOSERVER_USER"

def mapServerPasswordKey : String := "GEOSERVER_PASSWORD"

def defaultPoolSize : Nat := 10

/-- Reads a number that must not be zero. -/
def positive (e : Environment) (key : String) : Except Error (Option Nat) :=
  match e.getParsed Environment.nat64 key with
  | .error err => .error (.environment err)
  | .ok (some 0) => .error (.notPositive key)
  | .ok n => .ok n

def required (e : Environment) (key : String) : Except Error String :=
  match e.get? key with
  | some value => .ok value
  | none => .error (.missing key)

/-- The allow-list of a list of entries; an empty list stands for none. -/
def allowList (entries : List String) : Option AllowList :=
  if entries.isEmpty then none else some (.ofEntries entries)

/-- Reads the map server; without a URL there is none. -/
def readMapServer (e : Environment) : Except Error (Option MapServer) :=
  match e.get? mapServerUrlKey with
  | none => .ok none
  | some url => do
    return some ⟨url, ← required e mapServerUserKey, ← required e mapServerPasswordKey⟩

def readPolicy (e : Environment) : Except Error Policy := do
  let usual : Policy := {}
  let defaultLimit ← positive e defaultLimitKey
  let maxLimit ← positive e maxLimitKey
  let allowUnion ← (e.enabled allowUnionKey false).mapError .environment
  return {
    usual with
    defaultLimit := defaultLimit.getD usual.defaultLimit
    maxLimit
    allowUnion
    allowedRelations := allowList (e.getList allowedRelationsKey []) }

/-- Reads the settings; what is missing has a default. -/
def read (e : Environment) : Except Error Settings := do
  let usual : Database.Options := {}
  let poolSize ← positive e poolSizeKey
  let maxRows ← positive e maxRowsKey
  let timeout ← positive e timeoutKey
  let policy ← readPolicy e
  let mapServer ← readMapServer e
  return {
    databaseUrl := e.get? databaseUrlKey
    poolSize := poolSize.getD defaultPoolSize
    policy
    maxRows := maxRows.getD usual.maxRows
    timeoutMs := timeout.getD usual.timeoutMs
    storePath := e.get? storePathKey
    mapServer }

def requireDatabaseUrl (s : Settings) : Except Error String :=
  match s.databaseUrl with
  | some url => .ok url
  | none => .error (.missing databaseUrlKey)

end Settings

end SpatialQuery
