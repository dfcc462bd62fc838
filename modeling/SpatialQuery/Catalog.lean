import SpatialQuery.Relation

/-!
Catalogs: the columns of relations, with the types they are declared with.
-/

namespace SpatialQuery

structure Catalog.Column where
  name : String
  declaredType : String
  deriving DecidableEq, Repr

structure Catalog where
  entries : List (Relation × List Catalog.Column) := []
  deriving DecidableEq, Repr

namespace Catalog

/-- The columns of a relation in their order, if the relation is known. -/
def columns? (c : Catalog) (r : Relation) : Option (List Column) :=
  List.lookup r c.entries

/-- Adds a relation; its columns replace those it had before. -/
def insert (c : Catalog) (r : Relation) (columns : List Column) : Catalog :=
  ⟨(r, columns) :: c.entries⟩

/-- The type of a column, the first of its name. -/
def declaredType? (c : Catalog) (r : Relation) (name : String) : Option String :=
  match c.columns? r with
  | some columns => (columns.find? (·.name == name)).map (·.declaredType)
  | none => none

theorem columns?_insert (c : Catalog) (r s : Relation) (columns : List Column) :
    (c.insert r columns).columns? s = if s = r then some columns else c.columns? s := by
  by_cases h : s = r
  · simp [insert, columns?, h]
  · simp [insert, columns?, List.lookup_cons, beq_false_of_ne h, h]

end Catalog

end SpatialQuery
