import SpatialQuery.Validation

/-!
Suggested statements, which pass only if they are confident enough and valid.
-/

namespace SpatialQuery

/-- A statement that was suggested, with a confidence between 0 and 1. -/
structure Suggestion where
  sql : String
  confidence : Float

namespace Suggestion

inductive Error where
  | provider (message : String)
  | rejected (r : Rejection)
  | lowConfidence (confidence threshold : Float)

namespace Error

def code : Error → String
  | provider _ => "ProviderFailed"
  | rejected r => r.code
  | lowConfidence .. => "LowConfidence"

def message : Error → String
  | provider m => s!"Suggestion provider failed: {m}"
  | rejected r => r.report
  | lowConfidence c t =>
    s!"Suggestion confidence {Decimal.plain.text c} is below {Decimal.plain.text t}"

end Error

/-- The suggested statement, if it may run. -/
def validated (policy : Policy) (threshold : Float) (s : Suggestion) : Except Error Validated :=
  if s.confidence < threshold then .error (.lowConfidence s.confidence threshold)
  else ((Statement.ofText s.sql []).validated policy).mapError .rejected

end Suggestion

end SpatialQuery
