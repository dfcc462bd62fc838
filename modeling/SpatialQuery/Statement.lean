import SpatialQuery.Definition.Encoding
import SpatialQuery.Relation
import SpatialQuery.Value

/-!
Statements that can be run: SQL text with placeholders, the values for them, and what is known of the
columns of the result.
-/

namespace SpatialQuery

def Relation.toJson (r : Relation) : Json :=
  .obj [("schema", .str r.schema), ("table", .str r.table)]

inductive OutputColumn where
  /-- A column of a relation, or an aggregate of one; `COUNT(*)` has no column. -/
  | single (name : String) (relation : Relation) (column : Option String) (aggregate : Option Aggregate)
  /-- All columns of a relation. -/
  | allOf (relation : Relation)
  deriving DecidableEq, Repr

def OutputColumn.toJson : OutputColumn → Json
  | single name relation column aggregate =>
    .obj [("kind", .str "single"), ("name", .str name), ("relation", relation.toJson),
      ("column", (column.map .str).getD .null), ("aggregate", .str (nameIn Aggregate.names aggregate))]
  | allOf relation => .obj [("kind", .str "allOf"), ("relation", relation.toJson)]

structure Statement where
  sql : String
  /-- The value of each placeholder, from `$1` on. -/
  parameters : List Value
  /-- Nothing is known of a statement that is given as text. -/
  outputs : List OutputColumn
  deriving BEq

namespace Statement

def ofText (sql : String) (parameters : List Value) : Statement :=
  ⟨sql, parameters, []⟩

def toJson (s : Statement) : Json :=
  .obj [("sql", .str s.sql), ("parameters", .arr (s.parameters.map Value.toJson)),
    ("output_columns", .arr (s.outputs.map OutputColumn.toJson))]

end Statement

end SpatialQuery
