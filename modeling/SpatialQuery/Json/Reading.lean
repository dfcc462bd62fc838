import SpatialQuery.Json.Number

/-!
Reading JSON text. Containers may be nested 127 deep; deeper ones are checked but not read, and so are
numbers out of range and texts with half a surrogate pair.
-/

namespace SpatialQuery.Json

def isSpace (c : Char) : Bool :=
  c == ' ' || c == '\n' || c == '\t' || c == '\r'

def skipSpace (cs : List Char) : List Char :=
  cs.dropWhile isSpace

/-- How deep containers may be nested. -/
def maxDepth : Nat := 127

/-! ## Strings -/

/-- A part of a string: a character, or a code unit of UTF-16. -/
inductive Part where
  | char (c : Char)
  | unit (n : Nat)

def hexValue? (c : Char) : Option Nat :=
  if c.isDigit then some (c.toNat - '0'.toNat)
  else if 'a' ≤ c && c ≤ 'f' then some (c.toNat - 'a'.toNat + 10)
  else if 'A' ≤ c && c ≤ 'F' then some (c.toNat - 'A'.toNat + 10)
  else none

def unescape? : Char → Option Char
  | '"' => some '"'
  | '\\' => some '\\'
  | '/' => some '/'
  | 'b' => some '\x08'
  | 'f' => some '\x0c'
  | 'n' => some '\n'
  | 'r' => some '\r'
  | 't' => some '\t'
  | _ => none

/-- The parts of a string up to its closing quote, and what follows it. -/
def readParts : List Char → Option (List Part × List Char)
  | '"' :: cs => some ([], cs)
  | '\\' :: 'u' :: a :: b :: c :: d :: cs => do
    let n := (← hexValue? a) * 4096 + (← hexValue? b) * 256 + (← hexValue? c) * 16 + (← hexValue? d)
    let (parts, rest) ← readParts cs
    return (.unit n :: parts, rest)
  | '\\' :: e :: cs => do
    let c ← unescape? e
    let (parts, rest) ← readParts cs
    return (.char c :: parts, rest)
  | c :: cs =>
    if c.toNat < 0x20 || c == '\\' then none
    else (readParts cs).map fun (parts, rest) => (.char c :: parts, rest)
  | [] => none

def isHighSurrogate (n : Nat) : Bool := 0xD800 ≤ n && n < 0xDC00

def isLowSurrogate (n : Nat) : Bool := 0xDC00 ≤ n && n < 0xE000

/-- The characters of the parts; none for half a surrogate pair. -/
def joinParts? : List Part → Option (List Char)
  | [] => some []
  | .char c :: ps => (joinParts? ps).map (c :: ·)
  | .unit n :: .unit m :: ps =>
    if isHighSurrogate n then
      if isLowSurrogate m then
        (joinParts? ps).map (Char.ofNat (0x10000 + (n - 0xD800) * 1024 + (m - 0xDC00)) :: ·)
      else none
    else if isLowSurrogate n then none
    else (joinParts? (.unit m :: ps)).map (Char.ofNat n :: ·)
  | .unit n :: ps =>
    if isHighSurrogate n || isLowSurrogate n then none
    else (joinParts? ps).map (Char.ofNat n :: ·)

/-- A string behind its opening quote. -/
def readString (cs : List Char) : Option (Option String × List Char) :=
  (readParts cs).map fun (parts, rest) => ((joinParts? parts).map String.ofList, rest)

/-! ## Values -/

def unlessTooDeep (depth : Nat) (j : Json) : Json :=
  if depth ≤ maxDepth then j else .unreadable

/-- An object all of whose names can be read. -/
def objectOf (fields : List (Option String × Json)) : Json :=
  match fields.mapM fun (name, j) => name.map (·, j) with
  | some fields => .obj fields
  | none => .unreadable

mutual

/-- A value at the front of a text, with `depth` containers around it. The first number bounds the
steps. -/
def readValue : Nat → Nat → List Char → Option (Json × List Char)
  | 0, _, _ => none
  | fuel + 1, depth, cs =>
    match skipSpace cs with
    | 'n' :: 'u' :: 'l' :: 'l' :: cs => some (.null, cs)
    | 't' :: 'r' :: 'u' :: 'e' :: cs => some (.bool true, cs)
    | 'f' :: 'a' :: 'l' :: 's' :: 'e' :: cs => some (.bool false, cs)
    | '"' :: cs => (readString cs).map fun (s, rest) => ((s.map Json.str).getD .unreadable, rest)
    | '[' :: cs =>
      match skipSpace cs with
      | ']' :: cs => some (unlessTooDeep (depth + 1) (.arr []), cs)
      | cs => (readItems fuel (depth + 1) cs).map fun (items, rest) =>
        (unlessTooDeep (depth + 1) (.arr items), rest)
    | '\x7b' :: cs =>
      match skipSpace cs with
      | '\x7d' :: cs => some (unlessTooDeep (depth + 1) (.obj []), cs)
      | cs => (readFields fuel (depth + 1) cs).map fun (fields, rest) =>
        (unlessTooDeep (depth + 1) (objectOf fields), rest)
    | cs => (Numeral.read cs).map fun (n, rest) => (n.toJson, rest)

/-- Items up to the bracket that closes the array. -/
def readItems : Nat → Nat → List Char → Option (List Json × List Char)
  | 0, _, _ => none
  | fuel + 1, depth, cs =>
    match readValue fuel depth cs with
    | none => none
    | some (j, cs) =>
      match skipSpace cs with
      | ',' :: cs => (readItems fuel depth cs).map fun (items, rest) => (j :: items, rest)
      | ']' :: cs => some ([j], cs)
      | _ => none

/-- Fields up to the brace that closes the object. -/
def readFields : Nat → Nat → List Char → Option (List (Option String × Json) × List Char)
  | 0, _, _ => none
  | fuel + 1, depth, cs =>
    match skipSpace cs with
    | '"' :: cs =>
      match readString cs with
      | none => none
      | some (name, cs) =>
        match skipSpace cs with
        | ':' :: cs =>
          match readValue fuel depth cs with
          | none => none
          | some (j, cs) =>
            match skipSpace cs with
            | ',' :: cs => (readFields fuel depth cs).map fun (fields, rest) =>
              ((name, j) :: fields, rest)
            | '\x7d' :: cs => some ([(name, j)], cs)
            | _ => none
        | _ => none
    | _ => none

end

/-! Blanks in front of what is read do not count. -/

section

variable {fuel depth : Nat} {cs ds : List Char}

theorem readValue_congr (h : skipSpace cs = skipSpace ds) :
    readValue fuel depth cs = readValue fuel depth ds := by
  cases fuel with
  | zero => rfl
  | succ fuel => rw [readValue, readValue, h]

theorem readItems_congr (h : skipSpace cs = skipSpace ds) :
    readItems fuel depth cs = readItems fuel depth ds := by
  cases fuel with
  | zero => rfl
  | succ fuel => rw [readItems, readItems, readValue_congr h]

theorem readFields_congr (h : skipSpace cs = skipSpace ds) :
    readFields fuel depth cs = readFields fuel depth ds := by
  cases fuel with
  | zero => rfl
  | succ fuel => rw [readFields, readFields, h]

end

/-- The value that a text consists of. -/
def read? (text : String) : Option Json :=
  let cs := text.toList
  match readValue (2 * cs.length + 1) 0 cs with
  | some (j, rest) => if (skipSpace rest).isEmpty then some j else none
  | none => none

/-- The value, every part of which can be read. -/
def readAll? (text : String) : Option Json :=
  (read? text).filter readable

end SpatialQuery.Json
