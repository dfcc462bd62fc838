import SpatialQuery.Text.Integer
import SpatialQuery.Url
import SpatialQuery.Url.Host

/-!
Reading URLs. A URL whose path is no list of segments is not read.
-/

namespace SpatialQuery.Url

/-- Controls and spaces around a URL are ignored. -/
def isOuter (c : Char) : Bool :=
  c.toNat ≤ 0x20

/-- The text without the characters that are ignored. -/
def clean (cs : List Char) : List Char :=
  ((cs.dropWhile isOuter).reverse.dropWhile isOuter).reverse.filter fun c =>
    c != '\t' && c != '\n' && c != '\r'

def isSchemeChar (c : Char) : Bool :=
  c.isAlphanum || c == '+' || c == '-' || c == '.'

/-- The scheme in lower case, and what follows its colon. -/
def splitScheme? (cs : List Char) : Option (List Char × List Char) :=
  match cs.dropWhile isSchemeChar with
  | ':' :: rest =>
    let scheme := cs.takeWhile isSchemeChar
    if scheme.head?.any Char.isAlpha then some (scheme.map Char.toLower, rest) else none
  | _ => none

/-- A slash; for special schemes a backslash is one too. -/
def isSlash (special : Bool) (c : Char) : Bool :=
  c == '/' || special && c == '\\'

/-- The character ends an authority. -/
def endsAuthority (special : Bool) (c : Char) : Bool :=
  isSlash special c || c == '?' || c == '#'

/-- The parts in front of the first character with a property, and behind it; without one, all is in
front. -/
def splitAtFirst (p : Char → Bool) (cs : List Char) : List Char × Option (List Char) :=
  match cs.dropWhile fun c => !p c with
  | [] => (cs, none)
  | _ :: rest => (cs.takeWhile fun c => !p c, some rest)

/-! ## Authorities -/

/-- What precedes the last `@`, and what follows it. -/
def splitUser (cs : List Char) : Option (List Char) × List Char :=
  match splitAtFirst (· == '@') cs.reverse with
  | (_, none) => (none, cs)
  | (host, some user) => (some user.reverse, host.reverse)

/-- The host ends at a colon that is not in brackets. -/
def splitPort (inBrackets : Bool) : List Char → List Char × Option (List Char)
  | [] => ([], none)
  | c :: cs =>
    if c == ':' && !inBrackets then ([], some cs)
    else
      let (host, port) := splitPort (if c == '[' then true else if c == ']' then false else inBrackets) cs
      (c :: host, port)

/-- Reads a port; the usual one of the scheme is left out. -/
def readPort? (scheme cs : List Char) : Option (Option Nat) :=
  if cs.isEmpty then some none
  else match Text.readDigits 65535 .tooLarge 0 cs with
    | .ok n => some (if defaultPort? scheme == some n then none else some n)
    | .error _ => none

/-- Reads a host, which is empty only for schemes that are not special. -/
def readHost? (scheme cs : List Char) : Option (List Char) :=
  if isSpecial scheme then Host.read? cs else Host.readOther? cs

def readUser (cs : List Char) : List Char × List Char :=
  let (user, password) := splitAtFirst (· == ':') cs
  (Percent.encode userReserved user, Percent.encode userReserved (password.getD []))

/-- Reads an authority. Where there is no host there is neither a user nor a port. -/
def readAuthority? (scheme cs : List Char) : Option Authority := do
  let (user, rest) := splitUser cs
  let (hostText, portText) := splitPort false rest
  let host ← readHost? scheme hostText
  let (name, password) := readUser (user.getD [])
  if host.isEmpty && (user.isSome || portText.isSome) then none
  else return ⟨name, password, host, ← readPort? scheme (portText.getD [])⟩

/-! ## Paths -/

/-- The names of the segment that stays where it is. -/
def isDot (cs : List Char) : Bool :=
  cs == ['.'] || Text.sameLetters cs "%2e".toList

/-- The names of the segment that goes back. -/
def isDoubleDot (cs : List Char) : Bool :=
  cs == ['.', '.'] || [".%2e", "%2e.", "%2e%2e"].any fun s => Text.sameLetters cs s.toList

/-- The path after so many segments, read from the left. -/
def pathFrom (done : List (List Char)) : List (List Char) → List (List Char)
  | [] => done
  | s :: rest =>
    let s := Percent.encode pathReserved s
    if isDoubleDot s then
      pathFrom (done.dropLast ++ (if rest.isEmpty then [[]] else [])) rest
    else if isDot s then pathFrom (done ++ (if rest.isEmpty then [[]] else [])) rest
    else pathFrom (done ++ [s]) rest

def segments (special : Bool) (cs : List Char) : List (List Char) :=
  (cs.map fun c => if isSlash special c then '/' else c).splitOn '/'

/-- Reads what follows an authority. Paths of special schemes have a segment at least. -/
def readPath (special : Bool) (cs : List Char) : List (List Char) :=
  match cs with
  | [] => if special then [[]] else []
  | c :: rest => pathFrom [] (segments special (if isSlash special c then rest else c :: rest))

/-! ## URLs -/

/-- The text in front of the query, the query, and the fragment. -/
def splitTail (special : Bool) (cs : List Char) : List Char × Option (List Char) × Option (List Char) :=
  let (rest, fragment) := splitAtFirst (· == '#') cs
  let (rest, query) := splitAtFirst (· == '?') rest
  (rest, query.map (Percent.encode (queryReserved special)), fragment.map (Percent.encode fragmentReserved))

/-- The host of a file; this computer has an empty one. -/
def readFileHost? (cs : List Char) : Option (List Char) :=
  if cs.isEmpty then some []
  else (Host.read? cs).map fun h => if h == "localhost".toList then [] else h

/-- A path without the empty segments at its front. -/
def dropEmpty (path : List (List Char)) : List (List Char) :=
  match path.dropWhile List.isEmpty with
  | [] => [[]]
  | p => p

/-- Reads the host and the path of a file. -/
def readFile? (cs : List Char) : Option (Authority × List (List Char)) :=
  match cs with
  | a :: b :: rest =>
    if isSlash true a && isSlash true b then do
      let host ← readFileHost? (rest.takeWhile fun c => !isSlash true c)
      return (⟨[], [], host, none⟩, dropEmpty (readPath true (rest.dropWhile fun c => !isSlash true c)))
    else some (⟨[], [], [], none⟩, dropEmpty (readPath true cs))
  | _ => some (⟨[], [], [], none⟩, dropEmpty (readPath true cs))

/-- Reads an authority and a path. -/
def readRest? (scheme cs : List Char) : Option (Authority × List (List Char)) := do
  let special := isSpecial scheme
  let authority ← readAuthority? scheme (cs.takeWhile fun c => !isSlash special c)
  return (authority, readPath special (cs.dropWhile fun c => !isSlash special c))

def readChars? (cs : List Char) : Option Url := do
  let (scheme, cs) ← splitScheme? (clean cs)
  let special := isSpecial scheme
  let (rest, query, fragment) := splitTail special cs
  if scheme == "file".toList then
    let (authority, path) ← readFile? rest
    return ⟨scheme, some authority, path, query, fragment⟩
  else if special then
    let (authority, path) ← readRest? scheme (rest.dropWhile (isSlash true))
    return ⟨scheme, some authority, path, query, fragment⟩
  else match rest with
    | '/' :: '/' :: rest =>
      let (authority, path) ← readRest? scheme rest
      return ⟨scheme, some authority, path, query, fragment⟩
    | '/' :: _ => return ⟨scheme, none, readPath false rest, query, fragment⟩
    | _ => none

def read? (s : String) : Option Url :=
  readChars? s.toList

end SpatialQuery.Url
