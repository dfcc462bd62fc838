import SpatialQuery.Definition.Filter
import SpatialQuery.Definition.SelectList

/-!
Statements that definitions stand for. Every name in a definition is checked, and written in quotes;
the values of conditions are parameters and never part of the text.
-/

namespace SpatialQuery.Definition

/-- A relation that a definition names. -/
def readSource (schema table : String) (label : Option String) : Except Malformed Sql.Source :=
  if Text.trim table = "" then .error .emptyTable
  else do
    return ⟨← readName .schema schema, ← readName .table table, ← readLabel label⟩

def joinSource (j : Join) : Except Malformed Sql.Source :=
  readSource j.schema j.table j.label

/-- The condition of a join, which a cross join has not. -/
def joinCondition (scope : Scope) (j : Join) : Except Malformed (Option Sql.Predicate) :=
  match j.kind, j.left, j.right with
  | .cross, _, _ => .ok none
  | _, some left, some right => do
    return some (.compare j.operator (.column (← columnIn scope left)) (.column (← columnIn scope right)))
  | _, _, _ => .error (.missingJoinCondition j.table)

/-- The joins of a definition with their sources. A condition sees the relations joined so far, its
own included. -/
def readJoins (scope : Scope) : List (Join × Sql.Source) → Except Malformed (List Sql.Join)
  | [] => .ok []
  | (j, s) :: js =>
    match joinCondition (scope ++ [s]) j with
    | .error e => .error e
    | .ok condition => (readJoins (scope ++ [s]) js).map (⟨j.kind, s, condition⟩ :: ·)

def readOrder (scope : Scope) (o : Order) : Except Malformed Sql.Order := do
  return ⟨← columnIn scope o.column, o.direction, o.nulls⟩

/-- The statement that a definition stands for, and the columns of its result. -/
def compiled (d : Definition) : Except Malformed (Sql.Select × List OutputColumn) := do
  let source ← readSource d.schema d.table d.label
  let sources ← d.joins.mapM joinSource
  let joins ← readJoins [source] (d.joins.zip sources)
  let scope : Scope := source :: sources
  let groups ← d.groupBy.mapM (columnIn scope)
  let (items, outputs) ← selectList d scope groups
  let condition ← filter scope d.conditions
  let orders ← d.orderBy.mapM (readOrder scope)
  return (⟨d.distinct, items, source, joins, condition, groups, orders, d.limit, d.offset⟩, outputs)

/-- The statement as text, with the values of its parameters. -/
def statementOf (s : Sql.Select) (outputs : List OutputColumn) : Statement :=
  ⟨String.ofList (Sql.Fragment.texts 1 s.fragments), Sql.Fragment.values s.fragments, outputs⟩

def statement (d : Definition) : Except Malformed Statement := do
  let (s, outputs) ← d.compiled
  return statementOf s outputs

end SpatialQuery.Definition
