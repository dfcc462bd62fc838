import SpatialQuery.Relation

/-!
Definitions of queries, as a visual builder makes them and as they are stored. Names are texts, which
are checked when a definition is made into a statement.
-/

namespace SpatialQuery

inductive Aggregate where
  | count
  | sum
  | avg
  | min
  | max
  | extent
  | union
  | collect
  deriving DecidableEq, Repr

inductive Comparison where
  | equal
  | notEqual
  | less
  | lessOrEqual
  | greater
  | greaterOrEqual
  deriving DecidableEq, Repr

inductive TextMatch where
  | like
  | likeAnyCase
  | notLike
  | startsWith
  | endsWith
  | contains
  deriving DecidableEq, Repr

/-- How two geometries lie to each other. -/
inductive SpatialRelation where
  | intersects
  | contains
  | within
  | equal
  | touches
  | overlaps
  | crosses
  deriving DecidableEq, Repr

inductive Connective where
  | and
  | or
  deriving DecidableEq, Repr

inductive JoinKind where
  | inner
  | left
  | right
  | fullOuter
  | cross
  deriving DecidableEq, Repr

inductive Direction where
  | ascending
  | descending
  deriving DecidableEq, Repr

/-- Where an order puts nulls; the database decides by default. -/
inductive NullsPosition where
  | default
  | first
  | last
  deriving DecidableEq, Repr

namespace Definition

/-- What a condition says of its column. -/
inductive Operator where
  | compare (c : Comparison)
  | textMatch (m : TextMatch)
  | isNull
  | isNotNull
  | member
  | notMember
  | between
  | notBetween
  | spatial (r : SpatialRelation)
  | withinDistance
  deriving DecidableEq, Repr

/-- A geometry in text form, with the distance that some conditions need. -/
structure GeometryText where
  wkt : String
  srid : Int
  distance : Option Float
  deriving BEq

/-- What a condition compares its column with. -/
inductive Comparand where
  | null
  | bool (b : Bool)
  | int (i : Int)
  | float (x : Float)
  | text (s : String)
  | list (items : List Comparand)
  | geometry (g : GeometryText)
  deriving BEq, Inhabited

structure Condition where
  column : String
  operator : Operator
  value : Comparand := .null
  /-- Joins the condition to those before it; the first condition has no use for it. -/
  connective : Connective := .and
  deriving BEq

structure Column where
  source : String
  aggregate : Option Aggregate := none
  /-- The name of the result column. -/
  label : Option String := none
  deriving DecidableEq, Repr

structure Join where
  kind : JoinKind
  table : String
  schema : String := Relation.publicSchema
  label : Option String := none
  left : Option String := none
  right : Option String := none
  operator : Comparison := .equal
  deriving DecidableEq, Repr

structure Order where
  column : String
  direction : Direction := .ascending
  nulls : NullsPosition := .default
  deriving DecidableEq, Repr

end Definition

structure Definition where
  name : Option String := none
  schema : String := Relation.publicSchema
  table : String
  label : Option String := none
  /-- No columns stand for all columns. -/
  columns : List Definition.Column := []
  joins : List Definition.Join := []
  conditions : List Definition.Condition := []
  groupBy : List String := []
  orderBy : List Definition.Order := []
  limit : Option Nat := none
  offset : Option Nat := none
  distinct : Bool := false
  deriving BEq

def Definition.hasAggregate (d : Definition) : Bool :=
  d.columns.any (·.aggregate.isSome)

end SpatialQuery
