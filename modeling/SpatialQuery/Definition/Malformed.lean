import SpatialQuery.Definition
import SpatialQuery.Sql.Select

/-!
What can be wrong with a definition.
-/

namespace SpatialQuery.Definition

/-- What a name was expected to be the name of. -/
inductive Role where
  | schema
  | table
  | label
  | column
  | relation
  deriving DecidableEq, Repr

def Role.name : Role → String
  | schema => "schema"
  | table => "table"
  | label => "alias"
  | column => "column"
  | relation => "relation"

/-- What the operator of a condition needs. -/
inductive Need where
  | singleValue
  | text
  | list
  | someItems
  | twoValues
  | geometry
  | distance
  deriving DecidableEq, Repr

def Need.message : Need → String
  | singleValue => "expected a single non-null value"
  | text => "expected a text value"
  | list => "expected a list of values"
  | someItems => "the list must not be empty"
  | twoValues => "expected exactly two values"
  | geometry => "expected a geometry \x7bwkt, srid\x7d"
  | distance => "ST_DWITHIN requires a distance"

/-- The operator as messages name it. -/
def Operator.label : Operator → String
  | compare .equal => "Equals"
  | compare .notEqual => "NotEquals"
  | compare .less => "LessThan"
  | compare .lessOrEqual => "LessThanOrEqual"
  | compare .greater => "GreaterThan"
  | compare .greaterOrEqual => "GreaterThanOrEqual"
  | textMatch .like => "Like"
  | textMatch .likeAnyCase => "ILike"
  | textMatch .notLike => "NotLike"
  | textMatch .startsWith => "StartsWith"
  | textMatch .endsWith => "EndsWith"
  | textMatch .contains => "Contains"
  | isNull => "IsNull"
  | isNotNull => "IsNotNull"
  | member => "In"
  | notMember => "NotIn"
  | between => "Between"
  | notBetween => "NotBetween"
  | spatial .intersects => "StIntersects"
  | spatial .contains => "StContains"
  | spatial .within => "StWithin"
  | spatial .equal => "StEquals"
  | spatial .touches => "StTouches"
  | spatial .overlaps => "StOverlaps"
  | spatial .crosses => "StCrosses"
  | withinDistance => "StDWithin"

inductive Malformed where
  | emptyTable
  | invalidName (role : Role) (text : String)
  | ungroupedColumn (source : String)
  | aggregateOfWildcard (a : Aggregate) (source : String)
  | wildcardBesideAggregate (source : String)
  | conditionValue (column : String) (o : Operator) (need : Need)
  | missingJoinCondition (table : String)
  deriving DecidableEq, Repr

namespace Malformed

def code : Malformed → String
  | emptyTable => "EmptyTable"
  | invalidName .. => "InvalidIdentifier"
  | ungroupedColumn _ => "UngroupedColumn"
  | aggregateOfWildcard .. | wildcardBesideAggregate _ => "WildcardWithAggregate"
  | conditionValue .. => "InvalidConditionValue"
  | missingJoinCondition _ => "MissingJoinCondition"

def message : Malformed → String
  | emptyTable => "A table name is required"
  | invalidName role text => s!"Invalid {role.name} identifier '{text}'"
  | ungroupedColumn source => s!"Column '{source}' must be aggregated or appear in groupBy"
  | aggregateOfWildcard a source => s!"{a.function} can't be applied to '{source}'"
  | wildcardBesideAggregate source => s!"'{source}' can't be selected alongside aggregated columns"
  | conditionValue column o need => s!"Condition on '{column}' ({o.label}): {need.message}"
  | missingJoinCondition table => s!"Join on '{table}' needs both sides of its condition"

/-- The message with its code, as it is reported to users. -/
def report (m : Malformed) : String :=
  s!"Malformed query ({m.code}): {m.message}"

end Malformed

/-- Reads a name, in the role that an error names. -/
def readName (role : Role) (s : String) : Except Malformed Identifier :=
  match Identifier.ofString? s with
  | some i => .ok i
  | none => .error (.invalidName role s)

/-- Reads a name that may be missing. -/
def readLabel : Option String → Except Malformed (Option Identifier)
  | none => .ok none
  | some s => (readName .label s).map some

end SpatialQuery.Definition
