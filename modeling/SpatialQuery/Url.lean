import SpatialQuery.Url.Percent

/-!
URLs whose path is a list of segments. All parts are kept as they are written, with reserved
characters encoded.
-/

namespace SpatialQuery

structure Url.Authority where
  user : List Char := []
  password : List Char := []
  host : List Char
  port : Option Nat := none
  deriving DecidableEq, Repr

structure Url where
  scheme : List Char
  authority : Option Url.Authority
  path : List (List Char)
  query : Option (List Char) := none
  fragment : Option (List Char) := none
  deriving DecidableEq, Repr

namespace Url

/-! ## Schemes -/

/-- The ports of the schemes whose hosts are domains. -/
def defaultPorts : List (List Char × Option Nat) :=
  [("http".toList, some 80), ("https".toList, some 443), ("ws".toList, some 80),
    ("wss".toList, some 443), ("ftp".toList, some 21), ("file".toList, none)]

/-- Hosts of these schemes are domains, and a backslash is a slash. -/
def isSpecial (scheme : List Char) : Bool :=
  (List.lookup scheme defaultPorts).isSome

def defaultPort? (scheme : List Char) : Option Nat :=
  (List.lookup scheme defaultPorts).join

/-- A scheme over which requests are sent. -/
def isWeb (scheme : List Char) : Bool :=
  scheme == "http".toList || scheme == "https".toList

/-! ## Reserved characters -/

def fragmentReserved : List Char :=
  [' ', '"', '<', '>', '\x60']

def pathReserved : List Char :=
  fragmentReserved ++ ['#', '?', '\x7b', '\x7d']

def userReserved : List Char :=
  pathReserved ++ ['/', ':', ';', '=', '@', '[', '\\', ']', '^', '|']

def segmentReserved (special : Bool) : List Char :=
  pathReserved ++ ['/', '%'] ++ (if special then ['\\'] else [])

def queryReserved (special : Bool) : List Char :=
  [' ', '"', '#', '<', '>'] ++ (if special then ['\''] else [])

/-! ## Text -/

def Authority.text (a : Authority) : List Char :=
  a.user ++ (if a.password.isEmpty then [] else ':' :: a.password) ++
    (if a.user.isEmpty && a.password.isEmpty then [] else ['@']) ++ a.host ++
    ((a.port.map fun p => ':' :: Nat.toDigits 10 p).getD [])

def pathText (segments : List (List Char)) : List Char :=
  segments.flatMap ('/' :: ·)

/-- A path that starts with two slashes would be an authority. -/
def pathGuard (u : Url) : List Char :=
  match u.authority, u.path with
  | none, [] :: _ :: _ => ['/', '.']
  | _, _ => []

def chars (u : Url) : List Char :=
  u.scheme ++ [':'] ++ ((u.authority.map fun a => ['/', '/'] ++ a.text).getD []) ++ u.pathGuard ++
    pathText u.path ++ ((u.query.map ('?' :: ·)).getD []) ++ ((u.fragment.map ('#' :: ·)).getD [])

def text (u : Url) : String :=
  String.ofList u.chars

/-! ## Longer URLs -/

/-- The path to which segments are appended: an empty segment at its end, and the root, give way. -/
def openPath (path : List (List Char)) : List (List Char) :=
  let path := if path.getLast? == some [] then path.dropLast else path
  if path == [[]] then [] else path

def segmentText (special : Bool) (s : String) : List Char :=
  Percent.encode (segmentReserved special) (s.toList.filter fun c => !(['\t', '\n', '\r'].contains c))

/-- Appends segments to the path. One or two dots are no segment. -/
def append (u : Url) (segments : List String) : Url :=
  let names := segments.filter fun s => s != "." && s != ".."
  { u with path := openPath u.path ++ names.map (segmentText (isSpecial u.scheme)) }

/-- Appends a name and a value to the query. -/
def appendPair (u : Url) (name value : String) : Url :=
  let pair := Percent.encodeForm name.toList ++ '=' :: Percent.encodeForm value.toList
  match u.query with
  | none | some [] => { u with query := some pair }
  | some q => { u with query := some (q ++ '&' :: pair) }

end Url

end SpatialQuery
