import SpatialQuery.Proofs.Definition.Compiled
import SpatialQuery.Proofs.Rendering.Limits

/-!
Statements that definitions stand for pass validation. Only an allow-list that misses one of the relations
of the definition refuses them; otherwise they are run with their parameters, and with a limit that the
policy allows (`compiled_validated`).
-/

namespace SpatialQuery.Definition

open Token Lexical Validation RowLimit Sql

end SpatialQuery.Definition
