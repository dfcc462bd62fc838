import SpatialQuery.Decimal.Shortest
import SpatialQuery.Json

/-!
JSON text: compact, or with one item a line and two spaces for each level. Numbers that are not finite
are written as `null`.
-/

namespace SpatialQuery.Json

def hexDigit (n : Nat) : Char :=
  if n < 10 then Char.ofNat (n + 48) else Char.ofNat (n + 87)

/-- A character of a string: quotes, backslashes and control characters are escaped. -/
def escape (c : Char) : List Char :=
  match c with
  | '"' => ['\\', '"']
  | '\\' => ['\\', '\\']
  | '\x08' => ['\\', 'b']
  | '\x0c' => ['\\', 'f']
  | '\n' => ['\\', 'n']
  | '\r' => ['\\', 'r']
  | '\t' => ['\\', 't']
  | c =>
    if c.toNat < 0x20 then ['\\', 'u', '0', '0', hexDigit (c.toNat / 16), hexDigit (c.toNat % 16)]
    else [c]

def stringText (s : String) : List Char :=
  '"' :: s.toList.flatMap escape ++ ['"']

/-- The line break before an item, in a container with `level` containers around it. -/
def lineBreak (pretty : Bool) (level : Nat) : List Char :=
  if pretty then '\n' :: List.replicate (2 * level) ' ' else []

mutual

def chars (pretty : Bool) (level : Nat) : Json → List Char
  | null | unreadable => "null".toList
  | bool true => "true".toList
  | bool false => "false".toList
  | int i => Text.ofInt i
  | float x => if x.isFinite then (Decimal.json.text x).toList else "null".toList
  | str s => stringText s
  | arr [] => "[]".toList
  | arr items => '[' :: itemChars pretty (level + 1) items ++ lineBreak pretty level ++ [']']
  | obj [] => ['\x7b', '\x7d']
  | obj fields =>
    '\x7b' :: fieldChars pretty (level + 1) fields ++ lineBreak pretty level ++ ['\x7d']

def itemChars (pretty : Bool) (level : Nat) : List Json → List Char
  | [] => []
  | j :: js =>
    lineBreak pretty level ++ chars pretty level j ++
      (if js.isEmpty then [] else ',' :: itemChars pretty level js)

def fieldChars (pretty : Bool) (level : Nat) : List (String × Json) → List Char
  | [] => []
  | (n, j) :: fs =>
    lineBreak pretty level ++ stringText n ++ ':' :: (if pretty then [' '] else []) ++
      chars pretty level j ++ (if fs.isEmpty then [] else ',' :: fieldChars pretty level fs)

end

def compact (j : Json) : String :=
  String.ofList (j.chars false 0)

def pretty (j : Json) : String :=
  String.ofList (j.chars true 0)

end SpatialQuery.Json
