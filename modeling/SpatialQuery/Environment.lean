import SpatialQuery.Decimal.Reading
import SpatialQuery.Text.Blank
import SpatialQuery.Text.Boolean
import SpatialQuery.Text.Case

/-!
Environments: settings by their names. What an environment does not have is looked up in another one.
-/

namespace SpatialQuery

structure Environment where
  values : List (String × String) := []
  fallback : List (String × String) := []
  deriving DecidableEq, Repr

namespace Environment

inductive Error where
  | notBoolean (key value : String)
  /-- A value that cannot be read, and why. -/
  | unreadable (key value reason : String)
  deriving DecidableEq, Repr

def Error.message : Error → String
  | notBoolean key value =>
    s!"Invalid value for {key}: {value}. Expected true, 1, yes, on, enabled, enable " ++
      "OR false, 0, no, off, disabled, disable"
  | unreadable key value reason => s!"Invalid value {value} for {key}: {reason}"

def get? (e : Environment) (key : String) : Option String :=
  (List.lookup key e.values).or (List.lookup key e.fallback)

/-- Gives a setting a value, in place of any it had. -/
def set (e : Environment) (key value : String) : Environment :=
  { e with values := (key, value) :: e.values }

theorem get?_set (e : Environment) (key other value : String) :
    (e.set key value).get? other = if other = key then some value else e.get? other := by
  by_cases h : other = key
  · simp [set, get?, h]
  · simp [set, get?, List.lookup_cons, beq_false_of_ne h, h]

def getOr (e : Environment) (key default : String) : String :=
  (e.get? key).getD default

def trueWords : List String :=
  ["true", "1", "yes", "on", "enabled", "enable"]

def falseWords : List String :=
  ["false", "0", "no", "off", "disabled", "disable"]

/-- A switch, by several words in any letter case. -/
def enabled (e : Environment) (key : String) (default : Bool) : Except Error Bool :=
  match e.get? key with
  | none => .ok default
  | some value =>
    if trueWords.contains (Text.lower value) then .ok true
    else if falseWords.contains (Text.lower value) then .ok false
    else .error (.notBoolean key value)

/-- The items between commas, without the blanks around them; empty ones are left out. -/
def listItems (value : String) : List String :=
  ((value.toList.splitOn ',').map fun cs => Text.trim (String.ofList cs)).filter (· != "")

def getList (e : Environment) (key : String) (default : List String) : List String :=
  match e.get? key with
  | some value => listItems value
  | none => default

/-- Reads a setting, if it is there. Blanks around the value make no difference. -/
def getParsed (e : Environment) (read : List Char → Except String α) (key : String) :
    Except Error (Option α) :=
  match e.get? key with
  | none => .ok none
  | some value =>
    match read (Text.trim value).toList with
    | .ok a => .ok (some a)
    | .error reason => .error (.unreadable key value reason)

/-! ## What can be read -/

def nat64 (cs : List Char) : Except String Nat :=
  (Text.readNat64 cs).mapError (·.message)

def int32 (cs : List Char) : Except String Int :=
  (Text.readInt32 cs).mapError (·.message)

def boolean (cs : List Char) : Except String Bool :=
  match Text.readBool? cs with
  | some b => .ok b
  | none => .error Text.notBoolMessage

def float (cs : List Char) : Except String Float :=
  ((Decimal.Literal.read cs).mapError (·.message)).map (·.toFloat)

end Environment

end SpatialQuery
