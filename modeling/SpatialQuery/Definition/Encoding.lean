import SpatialQuery.Definition
import SpatialQuery.Value

/-!
Definitions as JSON. Fields without a value are left out; reading accepts unknown fields, and a record
as the list of its fields.
-/

namespace SpatialQuery

/-- The names of the values of an enumeration, some of which have several; the first is written. -/
def nameIn [BEq α] (names : List (String × α)) (a : α) : String :=
  ((names.find? (·.2 == a)).map (·.1)).getD ""

def Aggregate.names : List (String × Option Aggregate) :=
  [("NONE", none), ("COUNT", some .count), ("SUM", some .sum), ("AVG", some .avg), ("MIN", some .min),
    ("MAX", some .max), ("ST_EXTENT", some .extent), ("ST_UNION", some .union),
    ("ST_COLLECT", some .collect)]

def Comparison.names : List (String × Comparison) :=
  [("EQUALS", .equal), ("NOT_EQUALS", .notEqual), ("LESS_THAN", .less),
    ("LESS_THAN_OR_EQUAL", .lessOrEqual), ("GREATER_THAN", .greater),
    ("GREATER_THAN_OR_EQUAL", .greaterOrEqual)]

/-- Joins may also name a comparison by its sign. -/
def Comparison.namesAndSigns : List (String × Comparison) :=
  Comparison.names ++ [("=", .equal), ("<>", .notEqual), ("!=", .notEqual), ("<", .less),
    ("<=", .lessOrEqual), (">", .greater), (">=", .greaterOrEqual)]

def Connective.names : List (String × Connective) :=
  [("AND", .and), ("OR", .or)]

def JoinKind.names : List (String × JoinKind) :=
  [("INNER", .inner), ("LEFT", .left), ("RIGHT", .right), ("FULL_OUTER", .fullOuter), ("CROSS", .cross)]

def Direction.names : List (String × Direction) :=
  [("ASC", .ascending), ("DESC", .descending)]

def NullsPosition.names : List (String × NullsPosition) :=
  [("DEFAULT", .default), ("FIRST", .first), ("LAST", .last)]

namespace Definition

def Operator.names : List (String × Operator) :=
  (Comparison.names.map fun (n, c) => (n, .compare c)) ++
    [("LIKE", .textMatch .like), ("ILIKE", .textMatch .likeAnyCase), ("NOT_LIKE", .textMatch .notLike),
      ("STARTS_WITH", .textMatch .startsWith), ("ENDS_WITH", .textMatch .endsWith),
      ("CONTAINS", .textMatch .contains), ("IS_NULL", .isNull), ("IS_NOT_NULL", .isNotNull),
      ("IN", .member), ("NOT_IN", .notMember), ("BETWEEN", .between), ("NOT_BETWEEN", .notBetween),
      ("ST_INTERSECTS", .spatial .intersects), ("ST_CONTAINS", .spatial .contains),
      ("ST_WITHIN", .spatial .within), ("ST_DWITHIN", .withinDistance), ("ST_EQUALS", .spatial .equal),
      ("ST_TOUCHES", .spatial .touches), ("ST_OVERLAPS", .spatial .overlaps),
      ("ST_CROSSES", .spatial .crosses)]

/-! ## Writing -/

def GeometryText.toJson (g : GeometryText) : Json :=
  .obj ([("wkt", .str g.wkt), ("srid", .int g.srid)] ++ Json.fieldOf "distance" .float g.distance)

mutual

def Comparand.toJson : Comparand → Json
  | .null => .null
  | .bool b => .bool b
  | .int i => .int i
  | .float x => .float x
  | .text s => .str s
  | .list items => .arr (Comparand.listToJson items)
  | .geometry g => g.toJson

def Comparand.listToJson : List Comparand → List Json
  | [] => []
  | c :: cs => c.toJson :: Comparand.listToJson cs

end

def Condition.toJson (c : Condition) : Json :=
  .obj [("column", .str c.column), ("operator", .str (nameIn Operator.names c.operator)),
    ("value", c.value.toJson), ("connective", .str (nameIn Connective.names c.connective))]

def Column.toJson (c : Column) : Json :=
  .obj ([("sourceColumn", .str c.source),
    ("aggregateFunction", .str (nameIn Aggregate.names c.aggregate))] ++
    Json.fieldOf "alias" .str c.label)

def Join.toJson (j : Join) : Json :=
  .obj ([("joinType", .str (nameIn JoinKind.names j.kind)), ("table", .str j.table),
    ("schema", .str j.schema)] ++ Json.fieldOf "alias" .str j.label ++
    Json.fieldOf "leftExpr" .str j.left ++ Json.fieldOf "rightExpr" .str j.right ++
    [("operator", .str (nameIn Comparison.names j.operator))])

def Order.toJson (o : Order) : Json :=
  .obj [("column", .str o.column), ("direction", .str (nameIn Direction.names o.direction)),
    ("nullsPosition", .str (nameIn NullsPosition.names o.nulls))]

def toJson (d : Definition) : Json :=
  .obj (Json.fieldOf "name" .str d.name ++ [("schema", .str d.schema), ("table", .str d.table)] ++
    Json.fieldOf "alias" .str d.label ++
    [("columns", .arr (d.columns.map Column.toJson)), ("joins", .arr (d.joins.map Join.toJson)),
      ("conditions", .arr (d.conditions.map Condition.toJson)),
      ("groupBy", .arr (d.groupBy.map .str)), ("orderBy", .arr (d.orderBy.map Order.toJson))] ++
    Json.fieldOf "limit" .ofNat d.limit ++ Json.fieldOf "offset" .ofNat d.offset ++
    [("distinct", .bool d.distinct)])

/-! ## Reading -/

def GeometryText.ofJson? (j : Json) : Option GeometryText := do
  match ← j.record? ["wkt", "srid", "distance"] with
  | [wkt, srid, distance] =>
    return {
      wkt := ← Json.required Json.asString? wkt
      srid := ← Json.required (Json.asInt? (-0x80000000) 0x7FFFFFFF) srid
      distance := ← Json.optional Json.asFloat? distance }
  | _ => none

mutual

/-- Reads a value whose parts can all be read. An object is a geometry. -/
def Comparand.ofReadable? : Json → Option Comparand
  | .null => some .null
  | .bool b => some (.bool b)
  | .int i => some (if Value.minInt ≤ i && i ≤ Value.maxInt then .int i else .float (Float.ofInt i))
  | .float x => some (.float x)
  | .str s => some (.text s)
  | .arr items => (Comparand.listOfReadable? items).map .list
  | .obj fields => (GeometryText.ofJson? (.obj fields)).map .geometry
  | .unreadable => none

def Comparand.listOfReadable? : List Json → Option (List Comparand)
  | [] => some []
  | j :: js =>
    match Comparand.ofReadable? j, Comparand.listOfReadable? js with
    | some c, some cs => some (c :: cs)
    | _, _ => none

end

def Comparand.ofJson? (j : Json) : Option Comparand :=
  if j.readable then Comparand.ofReadable? j else none

def Condition.ofJson? (j : Json) : Option Condition := do
  match ← j.record? ["column", "operator", "value", "connective"] with
  | [column, operator, value, connective] =>
    return {
      column := ← Json.required Json.asString? column
      operator := ← Json.required (Json.asName? Operator.names) operator
      value := ← Json.withDefault .null Comparand.ofJson? value
      connective := ← Json.withDefault .and (Json.asName? Connective.names) connective }
  | _ => none

def Column.ofJson? (j : Json) : Option Column := do
  match ← j.record? ["sourceColumn", "aggregateFunction", "alias"] with
  | [source, aggregate, label] =>
    return {
      source := ← Json.required Json.asString? source
      aggregate := ← Json.withDefault none (Json.asName? Aggregate.names) aggregate
      label := ← Json.optional Json.asString? label }
  | _ => none

def Join.ofJson? (j : Json) : Option Join := do
  match ← j.record? ["joinType", "table", "schema", "alias", "leftExpr", "rightExpr", "operator"] with
  | [kind, table, schema, label, left, right, operator] =>
    return {
      kind := ← Json.required (Json.asName? JoinKind.names) kind
      table := ← Json.required Json.asString? table
      schema := ← Json.withDefault Relation.publicSchema Json.asString? schema
      label := ← Json.optional Json.asString? label
      left := ← Json.optional Json.asString? left
      right := ← Json.optional Json.asString? right
      operator := ← Json.withDefault .equal (Json.asName? Comparison.namesAndSigns) operator }
  | _ => none

def Order.ofJson? (j : Json) : Option Order := do
  match ← j.record? ["column", "direction", "nullsPosition"] with
  | [column, direction, nulls] =>
    return {
      column := ← Json.required Json.asString? column
      direction := ← Json.withDefault .ascending (Json.asName? Direction.names) direction
      nulls := ← Json.withDefault .default (Json.asName? NullsPosition.names) nulls }
  | _ => none

def fieldNames : List String :=
  ["name", "schema", "table", "alias", "columns", "joins", "conditions", "groupBy", "orderBy", "limit",
    "offset", "distinct"]

def ofJson? (j : Json) : Option Definition := do
  match ← j.record? fieldNames with
  | [name, schema, table, label, columns, joins, conditions, groupBy, orderBy, limit, offset, distinct] =>
    return {
      name := ← Json.optional Json.asString? name
      schema := ← Json.withDefault Relation.publicSchema Json.asString? schema
      table := ← Json.required Json.asString? table
      label := ← Json.optional Json.asString? label
      columns := ← Json.withDefault [] (Json.asList? Column.ofJson?) columns
      joins := ← Json.withDefault [] (Json.asList? Join.ofJson?) joins
      conditions := ← Json.withDefault [] (Json.asList? Condition.ofJson?) conditions
      groupBy := ← Json.withDefault [] (Json.asList? Json.asString?) groupBy
      orderBy := ← Json.withDefault [] (Json.asList? Order.ofJson?) orderBy
      limit := ← Json.optional (Json.asNat? Text.maxNat64) limit
      offset := ← Json.optional (Json.asNat? Text.maxNat64) offset
      distinct := ← Json.withDefault false Json.asBool? distinct }
  | _ => none

end Definition

end SpatialQuery
