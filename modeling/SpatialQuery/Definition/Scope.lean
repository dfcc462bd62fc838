import SpatialQuery.Definition.Malformed

/-!
Scopes: the relations that a column reference can belong to, in the order in which they are joined.
-/

namespace SpatialQuery.Definition

abbrev Scope := List Sql.Source

/-- The qualifier names the source: by its label if it has one, otherwise by its table, with or
without the schema. -/
def names (qualifier : List Identifier) (s : Sql.Source) : Bool :=
  match qualifier, s.label with
  | [n], some label => label == n
  | [n], none => s.table == n
  | [schema, n], none => s.schema == schema && s.table == n
  | _, _ => false

namespace Scope

/-- The source to which a reference belongs. Without a qualifier it belongs to the first one. -/
def resolve? (scope : Scope) : List Identifier → Option Sql.Source
  | [] => scope.head?
  | qualifier => scope.find? (names qualifier)

def qualifierText (qualifier : List Identifier) : String :=
  ".".intercalate (qualifier.map (·.name))

def resolve (scope : Scope) (c : ColumnRef) : Except Malformed Relation :=
  match scope.resolve? c.qualifier with
  | some s => .ok s.relation
  | none => .error (.invalidName .relation (qualifierText c.qualifier))

end Scope

/-- Reads a reference. -/
def readRef (s : String) : Except Malformed ColumnRef :=
  match ColumnRef.read s with
  | .ok c => .ok c
  | .error part => .error (.invalidName .column part)

/-- Reads a reference to one column of a relation in scope. -/
def columnIn (scope : Scope) (s : String) : Except Malformed ColumnRef := do
  let c ← readRef s
  if c.isWildcard then throw (.invalidName .column s)
  let _ ← scope.resolve c
  return c

end SpatialQuery.Definition
