import SpatialQuery.Definition.Scope

/-!
Filters: the conditions of a definition as one predicate. They are joined strictly from left to
right.
-/

namespace SpatialQuery.Definition

open Sql

namespace Comparand

/-- A single value. -/
def scalar? : Comparand → Option Value
  | bool b => some (.bool b)
  | int i => some (.int i)
  | float x => some (.float x)
  | text s => some (.text s)
  | null | list _ | geometry _ => none

end Comparand

/-! The operands that operators need. -/

def single (v : Comparand) : Except Need Operand :=
  match v.scalar? with
  | some v => .ok (.param v)
  | none => .error .singleValue

def textOperand : Comparand → Except Need Operand
  | .text s => .ok (.param (.text s))
  | _ => .error .text

def listOperands : Comparand → Except Need (List Operand)
  | .list [] => .error .someItems
  | .list items => items.mapM single
  | _ => .error .list

def rangeOperands : Comparand → Except Need (Operand × Operand)
  | .list [low, high] => do return (← single low, ← single high)
  | _ => .error .twoValues

/-- A geometry, whose text must not be blank. -/
def geometryOf : Comparand → Except Need GeometryText
  | .geometry g => if Text.trim g.wkt = "" then .error .geometry else .ok g
  | _ => .error .geometry

def geometryOperand (g : GeometryText) : Operand :=
  .geometry g.wkt g.srid

/-- The predicate of one condition on a column. Equality with null is a test for null. -/
def predicateOf (c : ColumnRef) (o : Operator) (v : Comparand) : Except Need Predicate :=
  let column := Operand.column c
  match o, v with
  | .compare .equal, .null => .ok (.isNull column)
  | .compare .notEqual, .null => .ok (.isNotNull column)
  | .compare comparison, v => (single v).map (.compare comparison column)
  | .textMatch m, v => (textOperand v).map (.textMatch m column)
  | .isNull, _ => .ok (.isNull column)
  | .isNotNull, _ => .ok (.isNotNull column)
  | .member, v => (listOperands v).map (.member column)
  | .notMember, v => (listOperands v).map (.notMember column)
  | .between, v => (rangeOperands v).map fun (low, high) => .between column low high
  | .notBetween, v => (rangeOperands v).map fun (low, high) => .notBetween column low high
  | .spatial r, v => (geometryOf v).map fun g => .spatial r column (geometryOperand g)
  | .withinDistance, v =>
    match geometryOf v with
    | .error n => .error n
    | .ok g =>
      match g.distance with
      | none => .error .distance
      | some x => .ok (.withinDistance column (geometryOperand g) (.param (.float x)))

def conditionPredicate (scope : Scope) (c : Condition) : Except Malformed Predicate :=
  match columnIn scope c.column with
  | .error e => .error e
  | .ok column =>
    match predicateOf column c.operator c.value with
    | .error n => .error (.conditionValue c.column c.operator n)
    | .ok p => .ok p

def connect (p : Predicate) : Connective → Predicate → Predicate
  | .and, q => p.both q
  | .or, q => p.either q

/-- Joins more conditions to a predicate. -/
def filterFrom (scope : Scope) (p : Predicate) : List Condition → Except Malformed Predicate
  | [] => .ok p
  | c :: cs =>
    match conditionPredicate scope c with
    | .error e => .error e
    | .ok q => filterFrom scope (connect p c.connective q) cs

/-- The predicate of the conditions, if there are any. -/
def filter (scope : Scope) : List Condition → Except Malformed (Option Predicate)
  | [] => .ok none
  | c :: cs =>
    match conditionPredicate scope c with
    | .error e => .error e
    | .ok p => (filterFrom scope p cs).map some

end SpatialQuery.Definition
