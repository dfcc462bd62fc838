import SpatialQuery.Definition.Scope
import SpatialQuery.Statement
import SpatialQuery.Text.Case

/-!
The columns of the result. Where one column is aggregated, the others must be aggregated too or be
covered by a group.
-/

namespace SpatialQuery.Definition

/-- A group covers a column that is the same reference, and one whose column or label it names without
a qualifier. -/
def covers (c : ColumnRef) (label : Option Identifier) (group : ColumnRef) : Bool :=
  group == c ||
    group.qualifier.isEmpty && (group.column == c.column || label.isSome && group.column == label)

/-- Checks a column against the aggregates and groups of its definition. -/
def checkAggregation (aggregated : Bool) (groups : List ColumnRef) (column : Column) (c : ColumnRef)
    (label : Option Identifier) : Except Malformed Unit :=
  match column.aggregate with
  | some .count => .ok ()
  | some a => if c.isWildcard then .error (.aggregateOfWildcard a column.source) else .ok ()
  | none =>
    if !aggregated then .ok ()
    else if c.isWildcard then .error (.wildcardBesideAggregate column.source)
    else if !groups.any (covers c label) then .error (.ungroupedColumn column.source)
    else .ok ()

/-- The name of a result column: its label, or the function, or the column. -/
def outputName (label : Option Identifier) (aggregate : Option Aggregate) (column : Option Identifier) :
    String :=
  match label, aggregate with
  | some l, _ => l.name
  | none, some a => Text.lower a.function
  | none, none => (column.map (·.name)).getD ""

def allOutputs (scope : Scope) : List OutputColumn :=
  scope.map fun s => .allOf s.relation

def outputsOf (scope : Scope) (i : Sql.Item) : Except Malformed (List OutputColumn) :=
  if i.column.isWildcard && i.aggregate.isNone && i.column.qualifier.isEmpty then
    .ok (allOutputs scope)
  else
    match scope.resolve i.column with
    | .error e => .error e
    | .ok r =>
      if i.column.isWildcard && i.aggregate.isNone then .ok [.allOf r]
      else
        .ok [.single (outputName i.label i.aggregate i.column.column) r
          (i.column.column.map (·.name)) i.aggregate]

/-- An item of the select list, and the columns that it adds to the result. -/
def selectItem (scope : Scope) (aggregated : Bool) (groups : List ColumnRef) (column : Column) :
    Except Malformed (Sql.Item × List OutputColumn) := do
  let c ← readRef column.source
  let label ← readLabel column.label
  checkAggregation aggregated groups column c label
  let item : Sql.Item := ⟨c, column.aggregate, label⟩
  let outputs ← outputsOf scope item
  return (item, outputs)

/-- The select list and the columns of the result. -/
def selectList (d : Definition) (scope : Scope) (groups : List ColumnRef) :
    Except Malformed (List Sql.Item × List OutputColumn) :=
  if d.columns.isEmpty then .ok ([], allOutputs scope)
  else do
    let items ← d.columns.mapM (selectItem scope d.hasAggregate groups)
    return (items.map (·.1), items.flatMap (·.2))

end SpatialQuery.Definition
