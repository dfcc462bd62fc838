import SpatialQuery.Statement
import SpatialQuery.Validation.Checks
import SpatialQuery.Validation.Limit

/-!
Validation of SQL text: a statement that only reads, and only what a policy allows, is accepted,
rewritten first where it needs a limit.
-/

namespace SpatialQuery.Validation

/-- The text to run and the change that gave it, or the first reason to reject the text. The number
of parameters is checked where it is given. -/
def assess (policy : Policy) (sql : String) (supplied : Option Nat) :
    Except Rejection (String × Option LimitChange) := do
  let pieces ← statement (Scan.ofString sql)
  checkTokens policy (pieces.map Piece.token) supplied
  let (text, change) := boundRows policy pieces
  return (String.ofList text, change)

def verdictOf : Except Rejection (String × Option LimitChange) → Verdict
  | .error reason => .reject reason
  | .ok (_, none) => .accept
  | .ok (sql, some change) => .rewrite sql change

end Validation

/-- The verdict on a text. -/
def validate (policy : Policy) (sql : String) (supplied : Option Nat) : Verdict :=
  Validation.verdictOf (Validation.assess policy sql supplied)

/-- A statement that may be run, and the change to its limit, if it needed one. -/
structure Validated where
  statement : Statement
  change : Option LimitChange
  deriving BEq

/-- The verdict that let the statement pass. -/
def Validated.verdict (v : Validated) : Verdict :=
  Validation.verdictOf (.ok (v.statement.sql, v.change))

/-- The statement as it may be run. Its parameters and outputs stay as they are. -/
def Statement.validated (policy : Policy) (s : Statement) : Except Rejection Validated :=
  match Validation.assess policy s.sql (some s.parameters.length) with
  | .error reason => .error reason
  | .ok (sql, change) => .ok ⟨⟨sql, s.parameters, s.outputs⟩, change⟩

end SpatialQuery
