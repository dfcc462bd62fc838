import SpatialQuery.Json
import SpatialQuery.Relation
import SpatialQuery.Token

/-!
Verdicts on statements. A statement is accepted, rejected for one reason, or rewritten so that it has
a limit.
-/

namespace SpatialQuery

/-- The reason for which a statement is rejected. -/
inductive Rejection where
  | empty
  | notSelect (verb : String)
  | unclosed (what : Construct) (offset : Nat)
  | comment (offset : Nat)
  | stacked
  | union
  | unionCatalog (name : String)
  | blockedFunction (name : String)
  | blockedKeyword (keyword : String)
  | into
  | rowLock
  | parameterCount (highest supplied : Nat)
  | relation (r : Relation)
  deriving DecidableEq, Repr

/-- What a rewrite does to the limit of a statement. -/
inductive LimitChange where
  | appended (limit : Nat)
  | replaced (count : String) (limit : Nat)
  | bounded (limit : Nat)
  | lowered (count limit : Nat)
  deriving DecidableEq, Repr

namespace Rejection

def code : Rejection → String
  | empty => "EmptyStatement"
  | notSelect _ | blockedFunction _ | blockedKeyword _ | into | rowLock => "WriteOperationBlocked"
  | unclosed .. | comment _ | stacked | union | unionCatalog _ => "InjectionPatternDetected"
  | parameterCount .. => "ParameterMismatch"
  | relation _ => "SchemaNotAllowed"

def message : Rejection → String
  | empty => "The statement is empty"
  | notSelect verb => s!"Only SELECT statements are allowed, found '{verb}'"
  | unclosed what offset => s!"Unterminated {what.name} at offset {offset}"
  | comment offset => s!"Comments are not allowed within a statement (offset {offset})"
  | stacked => "Multiple statements are not allowed"
  | union => "UNION is not allowed"
  | unionCatalog name => s!"UNION reads from system catalog '{name}'"
  | blockedFunction name => s!"Function '{name}' is not allowed"
  | blockedKeyword keyword => s!"'{keyword}' is not allowed"
  | into => "SELECT ... INTO is not allowed"
  | rowLock => "Row locking clauses are not allowed"
  | parameterCount highest supplied =>
    s!"The statement uses {highest} parameter(s) but {supplied} were supplied"
  | relation r => s!"Relation '{r.schema}.{r.table}' is not allowed"

/-- The message with its code, as it is reported to users. -/
def report (r : Rejection) : String :=
  s!"SQL rejected ({r.code}): {r.message}"

end Rejection

namespace LimitChange

def code : LimitChange → String
  | lowered .. => "LimitClamped"
  | _ => "LimitInjected"

def message : LimitChange → String
  | appended limit => s!"Appended LIMIT {limit}"
  | replaced count limit => s!"Replaced LIMIT {count} with LIMIT {limit}"
  | bounded limit => s!"Bounded a computed limit with LIMIT {limit}"
  | lowered count limit => s!"Lowered limit {count} to {limit}"

end LimitChange

inductive Verdict where
  | accept
  | reject (reason : Rejection)
  | rewrite (sql : String) (change : LimitChange)
  deriving DecidableEq, Repr

namespace Verdict

def outcome : Verdict → String
  | accept => "ACCEPT"
  | reject _ => "REJECT"
  | rewrite .. => "REWRITE"

/-- The reasons of a verdict: code and message. -/
def reasons : Verdict → List (String × String)
  | accept => []
  | reject reason => [(reason.code, reason.message)]
  | rewrite _ change => [(change.code, change.message)]

def rewritten? : Verdict → Option String
  | rewrite sql _ => some sql
  | _ => none

def toJson (v : Verdict) : Json :=
  .obj ([("outcome", .str v.outcome),
    ("reasons", .arr (v.reasons.map fun (c, m) => .obj [("code", .str c), ("message", .str m)]))] ++
    Json.fieldOf "rewrittenSql" .str v.rewritten?)

end Verdict

end SpatialQuery
