/-!
Names of relations: tables, views, and whatever else a query reads rows from.
-/

namespace SpatialQuery

structure Relation where
  schema : String
  table : String
  deriving DecidableEq, Repr

/-- The schema of relations that are named without one. -/
def Relation.publicSchema : String := "public"

end SpatialQuery
