/-!
Types of columns and parameters, as a database names them.
-/

namespace SpatialQuery

inductive SqlType where
  | bool
  | int2
  | int4
  | int8
  | float4
  | float8
  | numeric
  | text
  | varchar
  | bpchar
  | name
  | unknown
  | uuid
  | date
  | timestamp
  | timestamptz
  | json
  | jsonb
  | bytea
  | other (typeName : String)
  deriving DecidableEq, Repr

namespace SqlType

def typeName : SqlType → String
  | bool => "bool"
  | int2 => "int2"
  | int4 => "int4"
  | int8 => "int8"
  | float4 => "float4"
  | float8 => "float8"
  | numeric => "numeric"
  | text => "text"
  | varchar => "varchar"
  | bpchar => "bpchar"
  | name => "name"
  | unknown => "unknown"
  | uuid => "uuid"
  | date => "date"
  | timestamp => "timestamp"
  | timestamptz => "timestamptz"
  | json => "json"
  | jsonb => "jsonb"
  | bytea => "bytea"
  | other n => n

/-- The types that are known by their names. -/
def known : List SqlType :=
  [bool, int2, int4, int8, float4, float8, numeric, text, varchar, bpchar, name, unknown, uuid, date,
    timestamp, timestamptz, json, jsonb, bytea]

def ofName (n : String) : SqlType :=
  (known.find? (·.typeName == n)).getD (other n)

theorem typeName_ofName (n : String) : (ofName n).typeName = n := by
  unfold ofName
  cases h : known.find? (·.typeName == n) with
  | none => rfl
  | some t => simpa using List.find?_some h

/-- Texts whose length may or may not be limited. -/
def isText : SqlType → Bool
  | text | varchar | bpchar => true
  | _ => false

def isSpatial (t : SqlType) : Bool :=
  t.typeName == "geometry" || t.typeName == "geography"

end SqlType

end SpatialQuery
