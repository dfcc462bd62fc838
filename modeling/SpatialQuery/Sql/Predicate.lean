import SpatialQuery.ColumnRef
import SpatialQuery.Definition
import SpatialQuery.Sql.Fragment

/-!
Conditions on rows. A conjunction or disjunction stands in parentheses, so its text means what the
predicate says whatever stands around it.
-/

namespace SpatialQuery

namespace ColumnRef

open Sql.Fragment

/-- The parts of a reference with dots between them. -/
def fragments (c : ColumnRef) : List Sql.Fragment :=
  (c.qualifier.flatMap fun i => [name i, symbol '.']) ++
    [match c.column with
      | some i => name i
      | none => symbol '*']

end ColumnRef

def Comparison.sign : Comparison → List Char
  | equal => ['=']
  | notEqual => ['<', '>']
  | less => ['<']
  | lessOrEqual => ['<', '=']
  | greater => ['>']
  | greaterOrEqual => ['>', '=']

def SpatialRelation.function : SpatialRelation → String
  | intersects => "ST_Intersects"
  | contains => "ST_Contains"
  | within => "ST_Within"
  | equal => "ST_Equals"
  | touches => "ST_Touches"
  | overlaps => "ST_Overlaps"
  | crosses => "ST_Crosses"

namespace Sql

open Fragment

inductive Operand where
  | column (c : ColumnRef)
  | param (v : Value)
  | geometry (wkt : String) (srid : Int)
  deriving BEq

def Operand.fragments : Operand → List Fragment
  | column c => c.fragments
  | param v => [.param v]
  | geometry wkt srid => call "ST_GeomFromText" [[.param (.text wkt)], [.param (.int srid)]]

/-- A condition on a row. Patterns match as `LIKE` has them. -/
inductive Predicate where
  | compare (c : Comparison) (a b : Operand)
  | isNull (a : Operand)
  | isNotNull (a : Operand)
  | member (a : Operand) (items : List Operand)
  | notMember (a : Operand) (items : List Operand)
  | between (a low high : Operand)
  | notBetween (a low high : Operand)
  | textMatch (m : TextMatch) (a b : Operand)
  | spatial (r : SpatialRelation) (a b : Operand)
  | withinDistance (a b distance : Operand)
  | and (p q : Predicate)
  | or (p q : Predicate)
  deriving BEq

namespace Predicate

/-- Both of two predicates; one of them, if they are the same. -/
def both (p q : Predicate) : Predicate :=
  if p == q then p else p.and q

/-- One of two predicates; the first, if they are the same. -/
def either (p q : Predicate) : Predicate :=
  if p == q then p else p.or q

/-- Two parts with keywords between them. -/
def joined (a : List Fragment) (ws : List String) (b : List Fragment) : List Fragment :=
  a ++ blank :: words ws ++ blank :: b

def concatenation : List Fragment :=
  [blank, symbol '|', symbol '|', blank]

def textMatchFragments (m : TextMatch) (a b : List Fragment) : List Fragment :=
  match m with
  | .like => joined a ["LIKE"] b
  | .likeAnyCase => joined a ["ILIKE"] b
  | .notLike => joined a ["NOT", "LIKE"] b
  | .startsWith => joined a ["LIKE"] (b ++ concatenation ++ [anyText])
  | .endsWith => joined a ["LIKE"] (anyText :: concatenation ++ b)
  | .contains => joined a ["LIKE"] (anyText :: concatenation ++ b ++ concatenation ++ [anyText])

def listFragments (items : List Operand) : List Fragment :=
  symbol '(' :: commaList (items.map (·.fragments)) ++ [symbol ')']

def fragments : Predicate → List Fragment
  | compare c a b => a.fragments ++ blank :: c.sign.map symbol ++ blank :: b.fragments
  | isNull a => a.fragments ++ blank :: words ["IS", "NULL"]
  | isNotNull a => a.fragments ++ blank :: words ["IS", "NOT", "NULL"]
  | member a items => joined a.fragments ["IN"] (listFragments items)
  | notMember a items => joined a.fragments ["NOT", "IN"] (listFragments items)
  | between a low high =>
    joined a.fragments ["BETWEEN"] (joined low.fragments ["AND"] high.fragments)
  | notBetween a low high =>
    joined a.fragments ["NOT", "BETWEEN"] (joined low.fragments ["AND"] high.fragments)
  | textMatch m a b => textMatchFragments m a.fragments b.fragments
  | spatial r a b => call r.function [a.fragments, b.fragments]
  | withinDistance a b distance => call "ST_DWithin" [a.fragments, b.fragments, distance.fragments]
  | and p q => symbol '(' :: joined p.fragments ["AND"] q.fragments ++ [symbol ')']
  | or p q => symbol '(' :: joined p.fragments ["OR"] q.fragments ++ [symbol ')']

end Predicate

end Sql

end SpatialQuery
