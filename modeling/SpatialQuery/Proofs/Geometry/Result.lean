import SpatialQuery.Definition.SelectList
import SpatialQuery.Geometry.Column

/-!
The result of a statement, by a catalog of its relations. A wildcard stands for all columns, and a reference for the
column of the only relation in scope that has it; an aggregate of a geometry is again a geometry or is none.
-/

namespace SpatialQuery.Geometry

open Sql

/-! ## Columns of a result -/

/-- A column of a result, with the declared type of the column that it is made of. -/
structure ResultColumn where
  name : String
  declaredType : Option String
  aggregate : Option Aggregate
  deriving DecidableEq, Repr

structure GeometryColumn where
  name : String
  type : GeometryType
  srid : Option Int
  deriving DecidableEq, Repr

/-- The type of an aggregate of geometries: a union is of any type, an extent is a box. -/
def aggregateType? : Option Aggregate → GeometryType → Option GeometryType
  | some .union, _ => some .geometry
  | some .collect, t => some t.collected
  | some .extent, _ | some .count, _ | some .sum, _ | some .avg, _ => none
  | _, t => some t

/-- The column as a geometry. The reference system is that of the declared type. -/
def ResultColumn.spatial? (c : ResultColumn) : Option GeometryColumn := do
  let declared ← Declared.read? (← c.declaredType)
  let type ← aggregateType? c.aggregate declared.type
  return ⟨c.name, type, declared.srid⟩

def geometries (cols : List ResultColumn) : List GeometryColumn :=
  cols.filterMap (·.spatial?)

/-! ## References -/

def columnsOf (catalog : Catalog) (s : Source) : List Catalog.Column :=
  (catalog.columns? s.relation).getD []

/-- The source has a column of this name. -/
def hasColumn (catalog : Catalog) (s : Source) (column : Identifier) : Bool :=
  (columnsOf catalog s).any (·.name == column.name)

/-- A reference with this qualifier may be to the source. A label hides the name of the table. -/
def isMeant (qualifier : List Identifier) (s : Source) : Bool :=
  match qualifier with
  | [] => true
  | [n] => s.label.getD s.table == n
  | [schema, n] => s.label.isNone && s.schema == schema && s.table == n
  | _ => false

/-- The sources that a reference to a column may be to. -/
def owners (catalog : Catalog) (sources : List Source) (qualifier : List Identifier) (column : Identifier) :
    List Source :=
  sources.filter fun s => isMeant qualifier s && hasColumn catalog s column

/-! ## Results -/

def allColumns (catalog : Catalog) (s : Source) : List ResultColumn :=
  (columnsOf catalog s).map fun c => ⟨c.name, some c.declaredType, none⟩

/-- The name of a column of the result, where the item gives it none. -/
def defaultName (aggregate : Option Aggregate) (column : Option Identifier) : String :=
  match aggregate with
  | some a => Text.lower a.function
  | none => (column.map (·.name)).getD ""

/-- What an item adds to the result. A reference to no source, or to one of several, has no result. -/
def itemResult? (catalog : Catalog) (sources : List Source) (i : Item) : Option (List ResultColumn) :=
  let name := (i.label.map (·.name)).getD (defaultName i.aggregate i.column.column)
  match i.column.column, i.aggregate with
  | none, none =>
    match i.column.qualifier, sources.filter (isMeant i.column.qualifier) with
    | [], all => some (all.flatMap (allColumns catalog))
    | _, [s] => some (allColumns catalog s)
    | _, _ => none
  | none, some a => some [⟨name, none, some a⟩]
  | some column, a =>
    match owners catalog sources i.column.qualifier column with
    | [s] => some [⟨name, catalog.declaredType? s.relation column.name, a⟩]
    | _ => none

def sourcesOf (s : Select) : List Source :=
  s.source :: s.joins.map (·.source)

/-- The columns of the result of a statement, if the catalog lists its relations and each reference belongs to one
of them. -/
def result? (catalog : Catalog) (s : Select) : Option (List ResultColumn) :=
  if !(sourcesOf s).all fun source => (catalog.columns? source.relation).isSome then none
  else if s.items.isEmpty then some ((sourcesOf s).flatMap (allColumns catalog))
  else (s.items.mapM (itemResult? catalog (sourcesOf s))).map List.flatten

/-! ## References that are attributed elsewhere -/

/-- The reference of an item is attributed to a source that has no such column, although the item is a geometry. -/
def isOverlooked (catalog : Catalog) (sources : List Source) (i : Item) : Bool :=
  match i.column.column, Definition.Scope.resolve? sources i.column.qualifier with
  | some column, some s => !hasColumn catalog s column && (itemResult? catalog sources i).any (geometries · ≠ [])
  | _, _ => false

end SpatialQuery.Geometry
