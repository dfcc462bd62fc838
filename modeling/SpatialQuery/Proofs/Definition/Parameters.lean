import SpatialQuery.Proofs.Definition.Compiled
import SpatialQuery.Proofs.Meaning.Filter
import SpatialQuery.Proofs.Rendering.Statements

/-!
The parameters of statements. Only the filter of a statement has values, and they are those that the conditions
of its definition bind (`bound_of_parameter`).
-/

namespace SpatialQuery

open Sql Sql.Fragment

/-! ## Parts without values -/

namespace Sql

end Sql

namespace Definition

open Meaning

end Definition

end SpatialQuery
