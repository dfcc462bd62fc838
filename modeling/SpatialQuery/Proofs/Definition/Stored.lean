import SpatialQuery.Definition.Encoding
import SpatialQuery.Proofs.Json.Records

/-!
A definition is read from the JSON value that is stored of it (`encodes_toJson`). Its numbers have their types, and
its lists are not nested too deeply for a document (`Definition.Storable`).
-/

namespace SpatialQuery.Definition

open Json

/-- How many containers are around a definition in the document of a store. -/
def depthInDocument : Nat := 3

mutual

/-- The numbers of the value have their types and are read back, and with `depth` containers around it, it is not
nested too deeply. -/
def Comparand.Storable (depth : Nat) : Comparand → Prop
  | .null | .bool _ | .text _ => True
  | .int i => Value.minInt ≤ i ∧ i ≤ Value.maxInt
  | .float x => ReadsBack x
  | .list items => depth < maxDepth ∧ Comparand.ListStorable (depth + 1) items
  | .geometry g => depth < maxDepth ∧ (-0x80000000 ≤ g.srid ∧ g.srid ≤ 0x7FFFFFFF) ∧ ∀ x ∈ g.distance, ReadsBack x

def Comparand.ListStorable (depth : Nat) : List Comparand → Prop
  | [] => True
  | c :: cs => c.Storable depth ∧ Comparand.ListStorable depth cs

end

/-- The definition can be stored. The values of its conditions have two containers of it around them. -/
structure Storable (d : Definition) : Prop where
  conditions : ∀ c ∈ d.conditions, c.value.Storable (depthInDocument + 3)
  limit : ∀ n ∈ d.limit, n ≤ Text.maxNat64
  offset : ∀ n ∈ d.offset, n ≤ Text.maxNat64

section Parts

variable {depth : Nat}

/-- The fields of a geometry with a given distance. -/
def GeometryText.fields (g : GeometryText) (distance : Option Json) : List (String × Option Json) :=
  [("wkt", some (.str g.wkt)), ("srid", some (.int g.srid)), ("distance", distance)]

theorem GeometryText.toJson_eq (g : GeometryText) : g.toJson = .obj (present (g.fields (g.distance.map .float))) := by
  cases h : g.distance <;> simp [toJson, h, present, fieldOf, fields]

theorem GeometryText.ofJson?_fields {g : GeometryText} (hsrid : -0x80000000 ≤ g.srid ∧ g.srid ≤ 0x7FFFFFFF)
    (distance : Option Json) : ofJson? (.obj (present (g.fields distance))) =
      (optional asFloat? distance).map fun x => { g with distance := x } := by
  have hrecord : record? ["wkt", "srid", "distance"] (.obj (present (g.fields distance))) =
      some ((g.fields distance).map Prod.snd) := record?_present rfl (by decide)
  rw [ofJson?, hrecord]
  simp only [fields, List.map_cons, List.map_nil, Option.bind_eq_bind, Option.bind_some, required, asString?, asInt?,
    hsrid, decide_true, Bool.and_self, if_true]
  cases optional asFloat? distance <;> rfl

theorem encodes_geometry {g : GeometryText} (hdepth : depth < maxDepth)
    (hsrid : -0x80000000 ≤ g.srid ∧ g.srid ≤ 0x7FFFFFFF) (hdistance : ∀ x ∈ g.distance, ReadsBack x) :
    Encodes GeometryText.ofJson? depth g.toJson g := by
  have hwritable : Writable (depth + 1) (.int g.srid) :=
    ⟨Int.le_trans (by decide) hsrid.1, Int.le_trans hsrid.2 (by decide)⟩
  have hdistance : ∀ x ∈ g.distance, Encodes asFloat? (depth + 1) (.float x) x := fun x hx => ⟨hdistance x hx, rfl⟩
  rw [g.toJson_eq]
  refine ⟨writable_present hdepth ?_, ?_⟩
  · simpa [GeometryText.fields, Writable] using ⟨hwritable, fun x hx => (hdistance x hx).writable⟩
  · rw [GeometryText.ofJson?_fields hsrid, optional_map hdistance fun _ => Json.noConfusion]
    rfl

mutual

theorem encodes_comparand : (c : Comparand) → ∀ {depth : Nat}, c.Storable depth →
    Encodes Comparand.ofReadable? depth c.toJson c
  | .null, _, _ | .bool _, _, _ | .text _, _, _ => ⟨trivial, rfl⟩
  | .int i, _, h => by
    have hrange : Value.minInt ≤ i ∧ i ≤ Value.maxInt := h
    have hread : Comparand.ofReadable? (.int i) = some (.int i) := by
      rw [Comparand.ofReadable?, if_pos (by simpa using hrange)]
    exact ⟨⟨hrange.1, Int.le_trans hrange.2 (by decide)⟩, hread⟩
  | .float x, _, h => ⟨h, rfl⟩
  | .list items, _, h => by
    obtain ⟨hwritable, hread⟩ := encodes_comparands items h.2
    refine ⟨⟨h.1, hwritable⟩, ?_⟩
    rw [Comparand.toJson, Comparand.ofReadable?, hread]
    rfl
  | .geometry g, _, h => by
    have hg := encodes_geometry h.1 h.2.1 h.2.2
    refine ⟨hg.writable, ?_⟩
    rw [Comparand.toJson]
    exact congrArg (Option.map Comparand.geometry) hg.read

theorem encodes_comparands : (cs : List Comparand) → ∀ {depth : Nat}, Comparand.ListStorable depth cs →
    WritableItems depth (Comparand.listToJson cs) ∧ Comparand.listOfReadable? (Comparand.listToJson cs) = some cs
  | [], _, _ => ⟨trivial, rfl⟩
  | c :: cs, _, h => by
    obtain ⟨hc, hread⟩ := encodes_comparand c h.1
    obtain ⟨hcs, hreads⟩ := encodes_comparands cs h.2
    refine ⟨⟨hc, hcs⟩, ?_⟩
    rw [Comparand.listToJson, Comparand.listOfReadable?, hread, hreads]

end

theorem lookup_operator (o : Operator) : List.lookup (nameIn Operator.names o) Operator.names = some o := by
  cases o with
  | compare c => cases c <;> rfl
  | textMatch m => cases m <;> rfl
  | spatial r => cases r <;> rfl
  | _ => rfl

/-- The fields of a condition with a given value. -/
def Condition.fields (c : Condition) (value : Json) : List (String × Option Json) :=
  [("column", some (.str c.column)), ("operator", some (.str (nameIn Operator.names c.operator))),
    ("value", some value), ("connective", some (.str (nameIn Connective.names c.connective)))]

theorem Condition.toJson_eq (c : Condition) : c.toJson = .obj (present (c.fields c.value.toJson)) := rfl

theorem Condition.ofJson?_fields (c : Condition) (value : Json) :
    ofJson? (.obj (present (c.fields value))) = (Comparand.ofJson? value).map fun v => { c with value := v } := by
  have hconnective : List.lookup (nameIn Connective.names c.connective) Connective.names = some c.connective := by
    cases c.connective <;> rfl
  have hrecord : record? ["column", "operator", "value", "connective"] (.obj (present (c.fields value))) =
      some ((c.fields value).map Prod.snd) := record?_present rfl (by decide)
  rw [ofJson?, hrecord]
  simp only [fields, List.map_cons, List.map_nil, Option.bind_eq_bind, Option.bind_some, required, withDefault,
    asString?, asName?, lookup_operator, hconnective]
  cases Comparand.ofJson? value <;> rfl

theorem encodes_condition {c : Condition} (hdepth : depth < maxDepth) (h : c.value.Storable (depth + 1)) :
    Encodes Condition.ofJson? depth c.toJson c := by
  have hvalue := encodes_comparand c.value h
  have hread : Comparand.ofJson? c.value.toJson = some c.value := by
    rw [Comparand.ofJson?, if_pos (readable_of_writable _ hvalue.writable), hvalue.read]
  rw [c.toJson_eq]
  refine ⟨writable_present hdepth ?_, ?_⟩
  · simpa [Condition.fields, Writable] using hvalue.writable
  · rw [c.ofJson?_fields, hread]
    rfl

theorem encodes_column {c : Column} (hdepth : depth < maxDepth) : Encodes Column.ofJson? depth c.toJson c := by
  have hfields : c.toJson = .obj (present [("sourceColumn", some (.str c.source)),
      ("aggregateFunction", some (.str (nameIn Aggregate.names c.aggregate))), ("alias", c.label.map .str)]) := by
    cases h : c.label <;> simp [Column.toJson, h, present, fieldOf]
  have haggregate : List.lookup (nameIn Aggregate.names c.aggregate) Aggregate.names = some c.aggregate := by
    cases c.aggregate with
    | none => rfl
    | some a => cases a <;> rfl
  rw [hfields]
  refine ⟨writable_present hdepth ?_, ?_⟩
  · simp [Writable]
  · rw [Column.ofJson?, record?_present]
    · simp [required, withDefault, asString?, asName?, haggregate, optional_str]
    · rfl
    · decide

theorem encodes_join {j : Join} (hdepth : depth < maxDepth) : Encodes Join.ofJson? depth j.toJson j := by
  have hfields : j.toJson = .obj (present [("joinType", some (.str (nameIn JoinKind.names j.kind))),
      ("table", some (.str j.table)), ("schema", some (.str j.schema)), ("alias", j.label.map .str),
      ("leftExpr", j.left.map .str), ("rightExpr", j.right.map .str),
      ("operator", some (.str (nameIn Comparison.names j.operator)))]) := by
    simp [Join.toJson, present, fieldOf, Option.map_map, Function.comp_def]
  have hkind : List.lookup (nameIn JoinKind.names j.kind) JoinKind.names = some j.kind := by
    cases j.kind <;> rfl
  have hoperator : List.lookup (nameIn Comparison.names j.operator) Comparison.namesAndSigns = some j.operator := by
    cases j.operator <;> rfl
  rw [hfields]
  refine ⟨writable_present hdepth ?_, ?_⟩
  · simp [Writable]
  · rw [Join.ofJson?, record?_present]
    · simp [required, withDefault, asString?, asName?, hkind, hoperator, optional_str]
    · rfl
    · decide

theorem encodes_order {o : Order} (hdepth : depth < maxDepth) : Encodes Order.ofJson? depth o.toJson o := by
  have hfields : o.toJson = .obj (present [("column", some (.str o.column)),
      ("direction", some (.str (nameIn Direction.names o.direction))),
      ("nullsPosition", some (.str (nameIn NullsPosition.names o.nulls)))]) := rfl
  have hdirection : List.lookup (nameIn Direction.names o.direction) Direction.names = some o.direction := by
    cases o.direction <;> rfl
  have hnulls : List.lookup (nameIn NullsPosition.names o.nulls) NullsPosition.names = some o.nulls := by
    cases o.nulls <;> rfl
  rw [hfields]
  refine ⟨writable_present hdepth ?_, ?_⟩
  · simp [Writable]
  · rw [Order.ofJson?, record?_present]
    · simp [required, withDefault, asString?, asName?, hdirection, hnulls]
    · rfl
    · decide

end Parts

/-- The fields of a definition with given conditions. -/
def fields (d : Definition) (conditions : Json) : List (String × Option Json) :=
  [("name", d.name.map .str), ("schema", some (.str d.schema)), ("table", some (.str d.table)),
    ("alias", d.label.map .str), ("columns", some (.arr (d.columns.map Column.toJson))),
    ("joins", some (.arr (d.joins.map Join.toJson))), ("conditions", some conditions),
    ("groupBy", some (.arr (d.groupBy.map .str))), ("orderBy", some (.arr (d.orderBy.map Order.toJson))),
    ("limit", d.limit.map .ofNat), ("offset", d.offset.map .ofNat), ("distinct", some (.bool d.distinct))]

theorem toJson_eq (d : Definition) :
    d.toJson = .obj (present (d.fields (.arr (d.conditions.map Condition.toJson)))) := by
  simp [toJson, fields, present, fieldOf, Option.map_map, Function.comp_def]

theorem some_bind {α β : Type} (a : α) (f : α → Option β) : (some a >>= f) = f a := rfl

section Fields

variable {d : Definition} {depth : Nat}

theorem encodes_columns (d : Definition) (hdepth : depth + 1 < maxDepth) :
    Encodes (asList? Column.ofJson?) depth (.arr (d.columns.map Column.toJson)) d.columns :=
  encodes_list (Nat.lt_of_succ_lt hdepth) fun _ _ => encodes_column hdepth

theorem encodes_joins (d : Definition) (hdepth : depth + 1 < maxDepth) :
    Encodes (asList? Join.ofJson?) depth (.arr (d.joins.map Join.toJson)) d.joins :=
  encodes_list (Nat.lt_of_succ_lt hdepth) fun _ _ => encodes_join hdepth

theorem encodes_groupBy (d : Definition) (hdepth : depth < maxDepth) :
    Encodes (asList? asString?) depth (.arr (d.groupBy.map .str)) d.groupBy :=
  encodes_list hdepth fun s _ => encodes_str s

theorem encodes_orderBy (d : Definition) (hdepth : depth + 1 < maxDepth) :
    Encodes (asList? Order.ofJson?) depth (.arr (d.orderBy.map Order.toJson)) d.orderBy :=
  encodes_list (Nat.lt_of_succ_lt hdepth) fun _ _ => encodes_order hdepth

theorem encodes_count {v : Option Nat} (h : ∀ n ∈ v, n ≤ Text.maxNat64) :
    ∀ n ∈ v, Encodes (asNat? Text.maxNat64) depth (.ofNat n) n :=
  fun n hn => encodes_nat (Nat.le_refl _) (h n hn)

theorem ofJson?_fields (hlimit : ∀ n ∈ d.limit, n ≤ Text.maxNat64) (hoffset : ∀ n ∈ d.offset, n ≤ Text.maxNat64)
    (conditions : Json) : ofJson? (.obj (present (d.fields conditions))) =
      (asList? Condition.ofJson? conditions).map fun cs => { d with conditions := cs } := by
  have hcolumns := (@encodes_columns 0 d (by decide)).read
  have hjoins := (@encodes_joins 0 d (by decide)).read
  have hgroupBy := (@encodes_groupBy 0 d (by decide)).read
  have horderBy := (@encodes_orderBy 0 d (by decide)).read
  have hlimit := optional_map (@encodes_count 0 _ hlimit) fun _ => Json.noConfusion
  have hoffset := optional_map (@encodes_count 0 _ hoffset) fun _ => Json.noConfusion
  have hrecord : record? fieldNames (.obj (present (d.fields conditions))) =
      some ((d.fields conditions).map Prod.snd) := record?_present rfl (by decide)
  simp only [fields, List.map_cons, List.map_nil] at hrecord
  rw [ofJson?, fields, hrecord, some_bind]
  dsimp only [required, withDefault, Option.bind_some, asString?, asBool?]
  -- one field after another: a simplifier would go through what follows again at every field
  rw [optional_str, some_bind, some_bind, some_bind, optional_str, some_bind, hcolumns, some_bind, hjoins, some_bind]
  cases asList? Condition.ofJson? conditions with
  | none => rfl
  | some cs =>
    rw [some_bind, hgroupBy, some_bind, horderBy, some_bind, hlimit, some_bind, hoffset]
    rfl

/-- A definition is read from what is written of it, in any place where its conditions are not nested too deeply. -/
theorem encodes_conditions (hdepth : depth + 2 < maxDepth) (hvalues : ∀ c ∈ d.conditions, c.value.Storable (depth + 3))
    (hlimit : ∀ n ∈ d.limit, n ≤ Text.maxNat64) (hoffset : ∀ n ∈ d.offset, n ≤ Text.maxNat64) :
    Encodes ofJson? depth d.toJson d := by
  have hconditions : Encodes (asList? Condition.ofJson?) (depth + 1) _ d.conditions :=
    encodes_list (by omega) fun c hc => encodes_condition hdepth (hvalues c hc)
  rw [toJson_eq]
  refine ⟨writable_present (by omega) ?_, ?_⟩
  · simpa [fields, Writable] using ⟨(d.encodes_columns hdepth).writable, (d.encodes_joins hdepth).writable,
      hconditions.writable, (d.encodes_groupBy (Nat.lt_of_succ_lt hdepth)).writable,
      (d.encodes_orderBy hdepth).writable, fun n hn => (encodes_count hlimit n hn).writable,
      fun n hn => (encodes_count hoffset n hn).writable⟩
  · rw [ofJson?_fields hlimit hoffset, hconditions.read]
    rfl

end Fields

/-- A definition is read from what is stored of it. -/
theorem encodes_toJson {d : Definition} (h : d.Storable) : Encodes ofJson? depthInDocument d.toJson d :=
  encodes_conditions (by decide) h.conditions h.limit h.offset

end SpatialQuery.Definition
