import SpatialQuery.Sql.Predicate

/-!
`SELECT` statements. Their clauses are written in a fixed order, and the names of relations always have
their schema in front.
-/

namespace SpatialQuery

def Aggregate.function : Aggregate → String
  | count => "COUNT"
  | sum => "SUM"
  | avg => "AVG"
  | min => "MIN"
  | max => "MAX"
  | extent => "ST_Extent"
  | union => "ST_Union"
  | collect => "ST_Collect"

def JoinKind.words : JoinKind → List String
  | inner => ["INNER", "JOIN"]
  | left => ["LEFT", "JOIN"]
  | right => ["RIGHT", "JOIN"]
  | fullOuter => ["FULL", "OUTER", "JOIN"]
  | cross => ["CROSS", "JOIN"]

namespace Sql

open Fragment

/-- A relation that is read, and the name that stands for it in the statement. -/
structure Source where
  schema : Identifier
  table : Identifier
  label : Option Identifier
  deriving DecidableEq, Repr

namespace Source

def relation (s : Source) : Relation :=
  ⟨s.schema.name, s.table.name⟩

def fragments (s : Source) : List Fragment :=
  labelled [name s.schema, symbol '.', name s.table] s.label

end Source

structure Item where
  column : ColumnRef
  aggregate : Option Aggregate
  label : Option Identifier
  deriving DecidableEq, Repr

def Item.fragments (i : Item) : List Fragment :=
  labelled
    (match i.aggregate with
      | some a => call a.function [i.column.fragments]
      | none => i.column.fragments)
    i.label

structure Join where
  kind : JoinKind
  source : Source
  condition : Option Predicate
  deriving BEq

def Join.fragments (j : Join) : List Fragment :=
  words j.kind.words ++ blank :: j.source.fragments ++
    match j.condition with
    | some p => blank :: keyword "ON" :: blank :: p.fragments
    | none => []

structure Order where
  column : ColumnRef
  direction : Direction
  nulls : NullsPosition
  deriving DecidableEq, Repr

def Order.fragments (o : Order) : List Fragment :=
  o.column.fragments ++
    [blank, keyword (match o.direction with
      | .ascending => "ASC"
      | .descending => "DESC")] ++
    match o.nulls with
    | .default => []
    | .first => blank :: words ["NULLS", "FIRST"]
    | .last => blank :: words ["NULLS", "LAST"]

structure Select where
  distinct : Bool
  /-- No items stand for all columns. -/
  items : List Item
  source : Source
  joins : List Join
  condition : Option Predicate
  groupBy : List ColumnRef
  orderBy : List Order
  limit : Option Nat
  offset : Option Nat
  deriving BEq

namespace Select

/-- A clause that is left out if it has no items. -/
def listClause (ws : List String) (items : List (List Fragment)) : List Fragment :=
  if items.isEmpty then [] else blank :: words ws ++ blank :: commaList items

def numberClause (word : String) : Option Nat → List Fragment
  | none => []
  | some n => [blank, keyword word, blank, number n]

def fragments (s : Select) : List Fragment :=
  keyword "SELECT" :: blank :: (if s.distinct then [keyword "DISTINCT", blank] else []) ++
    (if s.items.isEmpty then [symbol '*'] else commaList (s.items.map (·.fragments))) ++
    blank :: keyword "FROM" :: blank :: s.source.fragments ++
    (s.joins.flatMap fun j => blank :: j.fragments) ++
    (match s.condition with
      | some p => blank :: keyword "WHERE" :: blank :: p.fragments
      | none => []) ++
    listClause ["GROUP", "BY"] (s.groupBy.map (·.fragments)) ++
    listClause ["ORDER", "BY"] (s.orderBy.map (·.fragments)) ++
    numberClause "LIMIT" s.limit ++ numberClause "OFFSET" s.offset

end Select

end Sql

end SpatialQuery
