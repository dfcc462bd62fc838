import SpatialQuery.Geometry.Column
import SpatialQuery.Identifier
import SpatialQuery.Value

/-!
Views that a map server publishes: SQL text with references to parameters, and the geometry of its
rows.
-/

namespace SpatialQuery

/-- Where a view is published. -/
structure ViewId where
  workspace : String
  datastore : String
  /-- The name of the layer. -/
  name : String
  deriving DecidableEq, Repr

namespace ViewId

def parts (i : ViewId) : List String :=
  [i.workspace, i.datastore, i.name]

/-- The layer by its name, with its workspace. -/
def layer (i : ViewId) : String :=
  s!"{i.workspace}:{i.name}"

def display (i : ViewId) : String :=
  s!"{i.workspace}/{i.datastore}/{i.name}"

def toJson (i : ViewId) : Json :=
  .obj [("workspace", .str i.workspace), ("datastore", .str i.datastore), ("name", .str i.name)]

/-- A part of an identity is a name without quotes around it. -/
def isPart (s : String) : Bool :=
  s.toList.head? != some '"' && (Identifier.ofString? s).isSome

/-- An identity of three parts; the error is the first part that is no name. -/
def ofParts (workspace datastore name : String) : Except String ViewId :=
  match [workspace, datastore, name].find? fun p => !isPart p with
  | some part => .error part
  | none => .ok ⟨workspace, datastore, name⟩

end ViewId

/-- The kinds of values that a parameter of a view can take. -/
inductive ParameterKind where
  | boolean
  | integer
  | float
  | text
  deriving DecidableEq, Repr

namespace ParameterKind

def ofValue : Value → ParameterKind
  | .bool _ => boolean
  | .int _ => integer
  | .float _ => float
  | .text _ => text

def name : ParameterKind → String
  | boolean => "BOOLEAN"
  | integer => "INTEGER"
  | float => "FLOAT"
  | text => "TEXT"

/-- The regular expression that the server checks values against. -/
def validator : ParameterKind → String
  | boolean => "^(true|false)$"
  | integer => "^-?\\d+$"
  | float => "^-?\\d+(\\.\\d+)?([eE][-+]?\\d+)?$"
  | text => "^[^'\\\\]*$"

/-- The kind that has a regular expression; another one is taken to be of a text. -/
def ofValidator (v : String) : ParameterKind :=
  ([boolean, integer, float].find? fun k => k.validator == v).getD text

def dropMinus : List Char → List Char
  | '-' :: cs => cs
  | cs => cs

def isDigits (cs : List Char) : Bool :=
  !cs.isEmpty && cs.all Char.isDigit

/-- A sign and digits, as they stand behind the `e` of an exponent. -/
def isExponent : List Char → Bool
  | '-' :: cs | '+' :: cs => isDigits cs
  | cs => isDigits cs

/-- The exponent, or nothing. -/
def isExponentPart : List Char → Bool
  | [] => true
  | c :: cs => (c == 'e' || c == 'E') && isExponent cs

/-- Digits behind a point and an exponent, both of which may be missing. -/
def isFraction : List Char → Bool
  | '.' :: cs =>
    !(cs.takeWhile Char.isDigit).isEmpty && isExponentPart (cs.dropWhile Char.isDigit)
  | cs => isExponentPart cs

def isFloat (cs : List Char) : Bool :=
  let cs := dropMinus cs
  !(cs.takeWhile Char.isDigit).isEmpty && isFraction (cs.dropWhile Char.isDigit)

/-- The texts that match the regular expression. A text must not end the literal it is put into. -/
def accepts (k : ParameterKind) (s : String) : Bool :=
  match k with
  | boolean => s == "true" || s == "false"
  | integer => isDigits (dropMinus s.toList)
  | float => isFloat s.toList
  | text => s.toList.all fun c => c != '\'' && c != '\\'

end ParameterKind

/-- A parameter of a view, to which its text refers by `%name%`. -/
structure ViewParameter where
  name : String
  kind : ParameterKind
  validator : String
  default : String
  deriving DecidableEq, Repr

namespace ViewParameter

/-- The reference to a parameter. -/
def reference (p : ViewParameter) : String :=
  s!"%{p.name}%"

def toJson (p : ViewParameter) : Json :=
  .obj [("name", .str p.name), ("valueType", .str p.kind.name), ("validator", .str p.validator),
    ("defaultValue", .str p.default)]

/-- The parameter for the value of the placeholder with a number. -/
def ofValue (number : Nat) (v : Value) : ViewParameter :=
  let kind := ParameterKind.ofValue v
  ⟨s!"p{number}", kind, kind.validator, v.asText⟩

end ViewParameter

structure View where
  id : ViewId
  sql : String
  parameters : List ViewParameter
  geometry : Geometry.Column
  /-- The column whose values identify the features. -/
  keyColumn : Option String
  deriving DecidableEq, Repr

namespace View

/-- The views define the same; blanks around the text make no difference. -/
def sameDefinition (a b : View) : Bool :=
  a.id == b.id && Text.trim a.sql == Text.trim b.sql && a.parameters == b.parameters &&
    a.geometry == b.geometry && a.keyColumn == b.keyColumn

def toJson (v : View) : Json :=
  .obj ([("identity", v.id.toJson), ("sql", .str v.sql),
    ("parameters", .arr (v.parameters.map ViewParameter.toJson)), ("geometry", v.geometry.toJson)] ++
    Json.fieldOf "keyColumn" .str v.keyColumn)

end View

end SpatialQuery
