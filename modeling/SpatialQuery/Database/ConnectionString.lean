import SpatialQuery.IpAddress
import SpatialQuery.Text.Blank
import SpatialQuery.Url.Percent

/-!
Connection strings: parameters of a connection, as a URL or as names and values.
-/

namespace SpatialQuery.Database

/-- The parameters of a connection in order. The bytes of a password or of a path need not be text. -/
structure ConnectionString where
  parameters : List (String × Bytes)
  deriving DecidableEq, Repr

namespace ConnectionString

/-! ## Parameters -/

def defaultPort : List Char := "5432".toList

def isPort (cs : List Char) : Bool :=
  cs.isEmpty || ((Text.readInteger 0 65535 cs).toOption).isSome

def isInteger (low high : Int) (cs : List Char) : Bool :=
  ((Text.readInteger low high cs).toOption).isSome

def isInt64 : List Char → Bool :=
  isInteger (-0x8000000000000000) 0x7FFFFFFFFFFFFFFF

/-- The parameters that take one of a few words. -/
def choices : List (String × List String) :=
  [("sslmode", ["disable", "prefer", "require"]), ("sslnegotiation", ["postgres", "direct"]),
    ("target_session_attrs", ["any", "read-write", "read-only"]),
    ("channel_binding", ["disable", "prefer", "require"]), ("load_balance_hosts", ["disable", "random"])]

def freeNames : List String :=
  ["user", "password", "dbname", "options", "application_name", "host"]

def timeNames : List String :=
  ["connect_timeout", "tcp_user_timeout", "keepalives_idle", "keepalives_interval"]

/-- There is a parameter of that name, and it can have the value. -/
def isParameter (name : String) (value : List Char) : Bool :=
  if freeNames.contains name then true
  else if timeNames.contains name then isInt64 value
  else match name with
    | "hostaddr" => (value.splitOn ',').all fun cs => (IpAddress.read? cs).isSome
    | "port" => (value.splitOn ',').all isPort
    | "keepalives" => isInteger 0 Text.maxNat64 value
    | "keepalives_retries" => isInteger 0 0xFFFFFFFF value
    | _ => ((List.lookup name choices).getD []).contains (String.ofList value)

def parameter? (name value : List Char) : Option (String × Bytes) :=
  let name := String.ofList name
  if isParameter name value then some (name, Bytes.ofString (String.ofList value)) else none

/-! ## Names and values -/

/-- The value up to a blank; a backslash stands before a character that is meant as such. -/
def takePlain : List Char → List Char × List Char
  | [] => ([], [])
  | '\\' :: [] => ([], [])
  | '\\' :: c :: cs => let (value, rest) := takePlain cs; (c :: value, rest)
  | c :: cs =>
    if Text.isBlank c then ([], c :: cs)
    else let (value, rest) := takePlain cs; (c :: value, rest)

/-- The value up to a quote. -/
def takeQuoted? : List Char → Option (List Char × List Char)
  | [] => none
  | '\'' :: cs => some ([], cs)
  | '\\' :: [] => none
  | '\\' :: c :: cs => (takeQuoted? cs).map fun (value, rest) => (c :: value, rest)
  | c :: cs => (takeQuoted? cs).map fun (value, rest) => (c :: value, rest)

/-- A value, and what follows it. -/
def takeValue? : List Char → Option (List Char × List Char)
  | '\'' :: cs => takeQuoted? cs
  | cs => match takePlain cs with
    | ([], _) => none
    | found => some found

def isNameChar (c : Char) : Bool :=
  c != '=' && !Text.isBlank c

/-- Reads names and values up to a name that is empty. The number bounds the parameters. -/
def readPairs? : Nat → List Char → Option (List (String × Bytes))
  | 0, _ => some []
  | fuel + 1, cs =>
    let cs := Text.trimStart cs
    let name := cs.takeWhile isNameChar
    if name.isEmpty then some []
    else match Text.trimStart (cs.dropWhile isNameChar) with
      | '=' :: rest =>
        match takeValue? (Text.trimStart rest) with
        | none => none
        | some (value, rest) => do
          return (← parameter? name value) :: (← readPairs? fuel rest)
      | _ => none

/-! ## URLs -/

/-- A percent-encoded value of a parameter. -/
def decoded? (name : String) (cs : List Char) : Option (String × Bytes) := do
  parameter? name.toList (← Percent.decode? cs).toList

/-- The text in front of one of the marks, and from there on. -/
def splitBefore (marks : List Char) (cs : List Char) : List Char × List Char :=
  (cs.takeWhile fun c => !marks.contains c, cs.dropWhile fun c => !marks.contains c)

/-- What is in front of a mark and behind it, if it is there. -/
def splitAround? (mark : Char) (cs : List Char) : Option (List Char × List Char) :=
  match splitBefore [mark] cs with
  | (before, _ :: after) => some (before, after)
  | _ => none

/-- Reads a user and a password. -/
def readUser? (cs : List Char) : Option (List (String × Bytes)) :=
  match splitAround? ':' cs with
  | none => (decoded? "user" cs).map ([·])
  | some (user, password) => (decoded? "user" user).map ([·, ("password", Percent.decode password)])

/-- A host, which is a path if it starts with a slash. -/
def readHostName? (cs : List Char) : Option (String × Bytes) :=
  let bs := Percent.decode cs
  if bs.head? == some (UInt8.ofNat '/'.toNat) || (Bytes.toString? bs).isSome then some ("host", bs) else none

/-- Reads a host and its port; an address with colons stands in brackets. -/
def readHost? (cs : List Char) : Option (List (String × Bytes)) := do
  let (host, port) ← match cs with
    | '[' :: rest =>
      match splitAround? ']' rest with
      | some (host, ':' :: port) => some (host, port)
      | some (host, []) => some (host, defaultPort)
      | _ => none
    | _ => some ((splitAround? ':' cs).getD (cs, defaultPort))
  return [← readHostName? host, ← decoded? "port" port]

/-- Reads hosts between commas. -/
def readHosts? (cs : List Char) : Option (List (String × Bytes)) :=
  if cs.isEmpty then some [] else ((cs.splitOn ',').mapM readHost?).map List.flatten

/-- Reads the parameters behind the question mark. -/
def readQuery? : Nat → List Char → Option (List (String × Bytes))
  | 0, _ | _, [] => some []
  | fuel + 1, cs => do
    let (name, rest) ← splitAround? '=' cs
    let name ← Percent.decode? name
    let (value, rest) := (splitAround? '&' rest).getD (rest, [])
    let p ← if name == "host" then readHostName? value else decoded? name value
    return p :: (← readQuery? fuel rest)

/-- Reads what follows the scheme. -/
def readUrl? (cs : List Char) : Option (List (String × Bytes)) := do
  let (user, cs) ← match splitAround? '@' cs with
    | some (user, rest) => (readUser? user).map (·, rest)
    | none => some ([], cs)
  let (hosts, cs) := splitBefore ['/', '?'] cs
  let hosts ← readHosts? hosts
  let (path, cs) := splitBefore ['?'] cs
  let database ← if path.length ≤ 1 then some [] else (decoded? "dbname" path.tail).map ([·])
  return user ++ hosts ++ database ++ (← readQuery? cs.length cs.tail)

def schemes : List String :=
  ["postgres://", "postgresql://"]

def read? (s : String) : Option ConnectionString :=
  let cs := s.toList
  match schemes.find? fun scheme => scheme.toList.isPrefixOf cs with
  | some scheme => (readUrl? (cs.drop scheme.length)).map (⟨·⟩)
  | none => (readPairs? cs.length cs).map (⟨·⟩)

/-! ## Options -/

/-- The options of the server that a connection asks for; the last ones count. -/
def options (c : ConnectionString) : Option String :=
  (List.lookup "options" c.parameters.reverse).bind Bytes.toString?

/-- The option by which transactions only read. -/
def readOnlyOption : String := "-c default_transaction_read_only=on"

def addOptions (c : ConnectionString) (added : String) : ConnectionString :=
  let options := match c.options with
    | some given => s!"{given} {added}"
    | none => added
  ⟨c.parameters ++ [("options", Bytes.ofString options)]⟩

/-- The connection, on which transactions only read. -/
def readOnly (c : ConnectionString) : ConnectionString :=
  c.addOptions readOnlyOption

/-- The message for a text that is no connection string. -/
def invalidMessage : String :=
  "Failed to parse PostgreSQL connection string Delegate: invalid connection string"

end ConnectionString

end SpatialQuery.Database
