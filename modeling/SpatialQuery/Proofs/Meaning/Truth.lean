import SpatialQuery.Definition.Filter
import SpatialQuery.Proofs.Meaning.Syntax

/-!
What conditions mean. Each condition tests a column, and its test has one of the three truth values of
SQL; conditions are joined from left to right. An expression that is read from a text has the truth value
that the tests in it give.
-/

namespace SpatialQuery.Meaning

open Definition

inductive Truth where
  | no
  | unknown
  | yes
  deriving DecidableEq, Repr

namespace Truth

def and : Truth → Truth → Truth
  | no, _ | _, no => no
  | yes, yes => yes
  | _, _ => unknown

def or : Truth → Truth → Truth
  | yes, _ | _, yes => yes
  | no, no => no
  | _, _ => unknown

theorem and_self (t : Truth) : t.and t = t := by
  cases t <;> rfl

theorem or_self (t : Truth) : t.or t = t := by
  cases t <;> rfl

end Truth

/-- The test of a column, with the values that it binds. Floats are compared as numbers are, so equal
tests may bind zeros of different signs. -/
structure Test where
  column : List String
  operator : Operator
  values : List Value
  deriving BEq

/-- Equal tests have one truth value. -/
def Respects (v : Test → Truth) : Prop :=
  ∀ t u, (t == u) = true → v t = v u

/-! ## Conditions -/

def geometryValues (g : GeometryText) : List Value :=
  [.text g.wkt, .int g.srid]

/-- The operator of a condition, and the values that it binds. Equality with null binds nothing: it is the
test for null. -/
def bound : Operator → Comparand → Operator × List Value
  | .compare .equal, .null => (.isNull, [])
  | .compare .notEqual, .null => (.isNotNull, [])
  | .isNull, _ => (.isNull, [])
  | .isNotNull, _ => (.isNotNull, [])
  | .withinDistance, .geometry g => (.withinDistance, geometryValues g ++ (g.distance.map .float).toList)
  | o, .geometry g => (o, geometryValues g)
  | o, .list items => (o, items.filterMap Comparand.scalar?)
  | o, v => (o, v.scalar?.toList)

/-- The names in a reference, from the outermost one inwards. -/
def columnNames (c : ColumnRef) : List String :=
  (c.qualifier ++ c.column.toList).map (·.name)

/-- The test that a condition makes, if its column can be read. -/
def conditionTest? (c : Condition) : Option Test :=
  match ColumnRef.read c.column with
  | .error _ => none
  | .ok column => some ⟨columnNames column, (bound c.operator c.value).1, (bound c.operator c.value).2⟩

def joinTruth : Connective → Truth → Truth → Truth
  | .and => Truth.and
  | .or => Truth.or

/-- The truth value of conditions behind others, which have the truth value `t`. -/
def foldFrom (v : Test → Truth) (t : Truth) : List Condition → Option Truth
  | [] => some t
  | c :: cs => (conditionTest? c).bind fun test => foldFrom v (joinTruth c.connective t (v test)) cs

/-- The truth value of conditions that are joined from left to right. The connective of the first one joins
nothing. No conditions restrict nothing. -/
def fold (v : Test → Truth) : List Condition → Option Truth
  | [] => some .yes
  | c :: cs => (conditionTest? c).bind fun test => foldFrom v (v test) cs

/-! ## Expressions -/

/-- The value of a placeholder; placeholders are counted from one. -/
def valueAt (values : List Value) : Nat → Option Value
  | 0 => none
  | k + 1 => values[k]?

def paramValue? (values : List Value) : Expr → Option Value
  | .param k => valueAt values k
  | _ => none

/-- The values of an argument: of a placeholder, or of a geometry. -/
def argumentValues? (values : List Value) : Expr → Option (List Value)
  | .param k => (valueAt values k).map ([·])
  | .call "st_geomfromtext" arguments => arguments.mapM (paramValue? values)
  | _ => none

/-- The values of arguments, one after the other. -/
def argumentsValues? (values : List Value) : List Expr → Option (List Value)
  | [] => some []
  | e :: es => do return (← argumentValues? values e) ++ (← argumentsValues? values es)

/-- What texts are matched with: a text that is a pattern, or one that any text may stand around. -/
def patternOf : Expr → TextMatch × Expr
  | .binary .concat (.binary .concat (.text ['%']) e) (.text ['%']) => (.contains, e)
  | .binary .concat (.text ['%']) e => (.endsWith, e)
  | .binary .concat e (.text ['%']) => (.startsWith, e)
  | e => (.like, e)

def spatialOperators : List (String × Operator) :=
  [("st_intersects", .spatial .intersects), ("st_contains", .spatial .contains),
    ("st_within", .spatial .within), ("st_equals", .spatial .equal), ("st_touches", .spatial .touches),
    ("st_overlaps", .spatial .overlaps), ("st_crosses", .spatial .crosses), ("st_dwithin", .withinDistance)]

def columnTest? (values : List Value) (o : Operator) : Expr → List Expr → Option Test
  | .column names, es => (argumentsValues? values es).map fun vs => ⟨names, o, vs⟩
  | _, _ => none

/-- The test that an expression makes. -/
def exprTest? (values : List Value) : Expr → Option Test
  | .binary (.compare c) a b => columnTest? values (.compare c) a [b]
  | .binary (.like false false) a b => columnTest? values (.textMatch (patternOf b).1) a [(patternOf b).2]
  | .binary (.like false true) a b => columnTest? values (.textMatch .likeAnyCase) a [b]
  | .binary (.like true false) a b => columnTest? values (.textMatch .notLike) a [b]
  | .isNull negated a => columnTest? values (if negated then .isNotNull else .isNull) a []
  | .member negated a items => columnTest? values (if negated then .notMember else .member) a items
  | .between negated a low high =>
    columnTest? values (if negated then .notBetween else .between) a [low, high]
  | .call function (a :: es) => (List.lookup function spatialOperators).bind (columnTest? values · a es)
  | _ => none

/-- The truth value of an expression whose placeholders have the values. -/
def truth (v : Test → Truth) (values : List Value) : Expr → Option Truth
  | .binary .and a b => do return (← truth v values a).and (← truth v values b)
  | .binary .or a b => do return (← truth v values a).or (← truth v values b)
  | e => (exprTest? values e).map v

/-- The truth value of a filter, as its text is read. No filter holds of every row. -/
def filterTruth (v : Test → Truth) : Option Sql.Predicate → Option Truth
  | none => some .yes
  | some p =>
    (readExpr (String.ofList (Sql.Fragment.texts 1 p.fragments))).bind
      (truth v (Sql.Fragment.values p.fragments))

end SpatialQuery.Meaning
