import SpatialQuery.Calendar.Reading
import SpatialQuery.Decimal.Reading
import SpatialQuery.Json.Printing
import SpatialQuery.Json.Reading
import SpatialQuery.Numeric
import SpatialQuery.SqlType
import SpatialQuery.Text.Boolean
import SpatialQuery.Uuid
import SpatialQuery.Value

/-!
Values as a database receives them. A value adapts to the type that the database expects of its
parameter; texts are read as values of that type.
-/

namespace SpatialQuery.Value

inductive BindError where
  | mismatch (v : Value) (t : SqlType)
  | integer (e : Text.IntegerError)
  | float (e : Decimal.ReadError)
  | bool
  | numeric (given : String)
  /-- A text that is no value of the type. -/
  | unreadable (t : SqlType)

/-- The message of an error, if it has one of its own. -/
def BindError.message? : BindError → Option String
  | mismatch v t => some s!"Cannot bind {v.display} to a parameter of type {t.typeName}"
  | integer e => some e.message
  | float e => some e.message
  | bool => some Text.notBoolMessage
  | numeric given => some s!"'{given}' is not a decimal number"
  | unreadable _ => none

def boolBytes (b : Bool) : Bytes :=
  [if b then 1 else 0]

def float4Bytes (x : Float32) : Bytes :=
  .ofNat 4 x.toBits.toNat

def float8Bytes (x : Float) : Bytes :=
  .ofNat 8 x.toBits.toNat

/-- An integer in so many bytes, if it fits. -/
def intBytes (width : Nat) (i : Int) : Except BindError Bytes :=
  if i < -Nat.pow 2 (8 * width - 1) then .error (.integer .tooSmall)
  else if Nat.pow 2 (8 * width - 1) ≤ i then .error (.integer .tooLarge)
  else .ok (.ofInt width i)

def numericBytes (s : String) : Except BindError Bytes :=
  (Numeric.encode s).mapError .numeric

def bindBool (b : Bool) (t : SqlType) : Except BindError Bytes :=
  if t == .bool then .ok (boolBytes b)
  else if t.isText then .ok (.ofString (asText (.bool b)))
  else .error (.mismatch (.bool b) t)

def bindInt (i : Int) (t : SqlType) : Except BindError Bytes :=
  match t with
  | .int2 => intBytes 2 i
  | .int4 => intBytes 4 i
  | .int8 => intBytes 8 i
  | .float4 => .ok (float4Bytes (Float32.ofInt i))
  | .float8 => .ok (float8Bytes (Float.ofInt i))
  | .numeric => numericBytes (asText (.int i))
  | t => if t.isText then .ok (.ofString (asText (.int i))) else .error (.mismatch (.int i) t)

def bindFloat (x : Float) (t : SqlType) : Except BindError Bytes :=
  match t with
  | .float4 => .ok (float4Bytes x.toFloat32)
  | .float8 => .ok (float8Bytes x)
  | .numeric => numericBytes (asText (.float x))
  | t => if t.isText then .ok (.ofString (asText (.float x))) else .error (.mismatch (.float x) t)

/-- The bytes of what a text is read as. -/
def readBytes (t : SqlType) (encode : α → Bytes) (value : Option α) : Except BindError Bytes :=
  match value with
  | some a => .ok (encode a)
  | none => .error (.unreadable t)

def dateBytes (d : Calendar.Date) : Bytes :=
  .ofInt 4 d.dayNumber

def timeBytes (t : Calendar.DateTime) : Bytes :=
  .ofInt 8 t.micros

def jsonBytes (j : Json) : Bytes :=
  .ofString j.asMaps.compact

/-- The bytes of a text. Blanks around it count only in texts and in JSON. -/
def bindText (s : String) (t : SqlType) : Except BindError Bytes :=
  let cs := (Text.trim s).toList
  match t with
  | .text | .varchar | .bpchar | .name | .unknown => .ok (.ofString s)
  | .int2 => ((Text.readInt16 cs).mapError .integer).map (.ofInt 2)
  | .int4 => ((Text.readInt32 cs).mapError .integer).map (.ofInt 4)
  | .int8 => ((Text.readInt64 cs).mapError .integer).map (.ofInt 8)
  | .float4 => ((Decimal.Literal.read cs).mapError .float).map fun l => .ofNat 4 l.toBits32.toNat
  | .float8 => ((Decimal.Literal.read cs).mapError .float).map fun l => .ofNat 8 l.toBits.toNat
  | .numeric => numericBytes s
  | .bool =>
    match Text.readBool? cs with
    | some b => .ok (boolBytes b)
    | none => .error .bool
  | .uuid => readBytes t id (Uuid.read? cs)
  | .date => readBytes t dateBytes (Calendar.readDate? cs)
  | .timestamp => readBytes t timeBytes (Calendar.readDateTime? cs)
  | .timestamptz => readBytes t timeBytes (Calendar.readUtc? cs)
  | .json => readBytes t jsonBytes (Json.readAll? s)
  | .jsonb => readBytes t (fun j => 1 :: jsonBytes j) (Json.readAll? s)
  | .bytea | .other _ => .error (.mismatch (.text s) t)

/-- The bytes of a value as a parameter of a type. -/
def bind (v : Value) (t : SqlType) : Except BindError Bytes :=
  match v with
  | bool b => bindBool b t
  | int i => bindInt i t
  | float x => bindFloat x t
  | text s => bindText s t

end SpatialQuery.Value
