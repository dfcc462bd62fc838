import SpatialQuery.Definition.Compiled
import SpatialQuery.Proofs.Except

/-!
What a statement has from the definition that it stands for (`Parts`). Its relations are those of the
definition (`Parts.relations_eq`).
-/

namespace SpatialQuery.Definition

open Sql

/-! ## The parts of a statement -/

/-- A statement, the columns of its result and the sources of its joins, as they are read from a
definition. -/
structure Parts (d : Definition) (s : Select) (outputs : List OutputColumn) (sources : List Source) :
    Prop where
  source : readSource d.schema d.table d.label = .ok s.source
  joined : d.joins.mapM joinSource = .ok sources
  joins : readJoins [s.source] (d.joins.zip sources) = .ok s.joins
  groupBy : d.groupBy.mapM (columnIn (s.source :: sources)) = .ok s.groupBy
  list : selectList d (s.source :: sources) s.groupBy = .ok (s.items, outputs)
  condition : filter (s.source :: sources) d.conditions = .ok s.condition
  orderBy : d.orderBy.mapM (readOrder (s.source :: sources)) = .ok s.orderBy
  distinct : s.distinct = d.distinct
  limit : s.limit = d.limit
  offset : s.offset = d.offset

theorem parts_of_compiled {d : Definition} {s : Select} {outputs : List OutputColumn}
    (h : d.compiled = .ok (s, outputs)) : ∃ sources, Parts d s outputs sources := by
  unfold compiled at h
  obtain ⟨source, hsource, h⟩ := bind_ok_iff.1 h
  obtain ⟨sources, hsources, h⟩ := bind_ok_iff.1 h
  obtain ⟨joins, hjoins, h⟩ := bind_ok_iff.1 h
  obtain ⟨groups, hgroups, h⟩ := bind_ok_iff.1 h
  obtain ⟨⟨items, columns⟩, hlist, h⟩ := bind_ok_iff.1 h
  obtain ⟨condition, hcondition, h⟩ := bind_ok_iff.1 h
  obtain ⟨orders, horders, h⟩ := bind_ok_iff.1 h
  obtain ⟨rfl, rfl⟩ := Prod.mk.inj (Except.ok.inj h)
  exact ⟨sources, hsource, hsources, hjoins, hgroups, hlist, hcondition, horders, rfl, rfl, rfl⟩

/-- The statement of a definition, in its parts and as text. -/
theorem parts_of_statement {d : Definition} {st : Statement} (h : d.statement = .ok st) :
    ∃ s outputs sources, Parts d s outputs sources ∧ st = statementOf s outputs := by
  unfold statement at h
  obtain ⟨⟨s, outputs⟩, hcompiled, h⟩ := bind_ok_iff.1 h
  obtain ⟨sources, hparts⟩ := parts_of_compiled hcompiled
  exact ⟨s, outputs, sources, hparts, (Except.ok.inj h).symm⟩

/-! ## Relations -/

/-- The relation of two names, with or without quotes around them. -/
def relationOf? (schema table : String) : Option Relation := do
  let schema ← Identifier.ofString? schema
  let table ← Identifier.ofString? table
  return ⟨schema.name, table.name⟩

/-- The relation that a definition reads from, and those that it joins. -/
def relations (d : Definition) : List Relation :=
  (relationOf? d.schema d.table).toList ++ d.joins.filterMap fun j => relationOf? j.schema j.table

theorem readName_ok_iff {role : Role} {s : String} {i : Identifier} :
    readName role s = .ok i ↔ Identifier.ofString? s = some i := by
  unfold readName
  cases Identifier.ofString? s <;> simp

theorem readSource_ok {schema table : String} {label : Option String} {s : Source}
    (h : readSource schema table label = .ok s) : Identifier.ofString? schema = some s.schema ∧
      Identifier.ofString? table = some s.table ∧ readLabel label = .ok s.label := by
  unfold readSource at h
  split at h
  · cases h
  · obtain ⟨i, hi, h⟩ := bind_ok_iff.1 h
    obtain ⟨j, hj, h⟩ := bind_ok_iff.1 h
    obtain ⟨l, hl, h⟩ := bind_ok_iff.1 h
    obtain rfl := Except.ok.inj h
    exact ⟨readName_ok_iff.1 hi, readName_ok_iff.1 hj, hl⟩

theorem readJoins_cons_iff {scope : Scope} {j : Join} {s : Source} {js : List (Join × Source)}
    {joins : List Sql.Join} : readJoins scope ((j, s) :: js) = .ok joins ↔ ∃ condition rest,
      joinCondition (scope ++ [s]) j = .ok condition ∧ readJoins (scope ++ [s]) js = .ok rest ∧
        ⟨j.kind, s, condition⟩ :: rest = joins := by
  rw [readJoins]
  cases joinCondition (scope ++ [s]) j with
  | error => simp
  | ok condition => simp [map_ok_iff]

/-- The joins have the sources that they were read with. -/
theorem sources_readJoins {scope : Scope} {js : List (Join × Source)} {joins : List Sql.Join}
    (h : readJoins scope js = .ok joins) : joins.map (·.source) = js.map Prod.snd := by
  induction js generalizing scope joins with
  | nil =>
    cases h
    rfl
  | cons j js ih =>
    obtain ⟨condition, rest, -, hrest, rfl⟩ := readJoins_cons_iff.1 h
    rw [List.map_cons, List.map_cons, ih hrest]

theorem readRef_ok {text : String} {c : ColumnRef} (h : readRef text = .ok c) : ColumnRef.read text = .ok c := by
  unfold readRef at h
  split at h
  · rename_i hread
    cases h
    exact hread
  · cases h

/-- An item of the select list is as it is read, and its outputs are those of the item. -/
theorem selectItem_ok {scope : Scope} {aggregated : Bool} {groups : List ColumnRef} {column : Column} {item : Item}
    {outputs : List OutputColumn} (h : selectItem scope aggregated groups column = .ok (item, outputs)) :
    readRef column.source = .ok item.column ∧ readLabel column.label = .ok item.label ∧
      outputsOf scope item = .ok outputs := by
  unfold selectItem at h
  obtain ⟨c, hc, h⟩ := bind_ok_iff.1 h
  obtain ⟨label, hlabel, h⟩ := bind_ok_iff.1 h
  obtain ⟨_, -, h⟩ := bind_ok_iff.1 h
  obtain ⟨o, ho, h⟩ := bind_ok_iff.1 h
  obtain ⟨rfl, rfl⟩ := Prod.mk.inj (Except.ok.inj h)
  exact ⟨hc, hlabel, ho⟩

/-- The condition of a join compares its two sides. -/
theorem joinCondition_ok {scope : Scope} {j : Join} {p : Predicate} (h : joinCondition scope j = .ok (some p)) :
    ∃ left right a b, j.left = some left ∧ j.right = some right ∧ j.kind ≠ .cross ∧
      columnIn scope left = .ok a ∧ columnIn scope right = .ok b ∧ p = .compare j.operator (.column a) (.column b) := by
  unfold joinCondition at h
  split at h
  · cases h
  · rename_i left right hleft hright hkind
    obtain ⟨a, ha, h⟩ := bind_ok_iff.1 h
    obtain ⟨b, hb, h⟩ := bind_ok_iff.1 h
    cases h
    exact ⟨left, right, a, b, hleft, hright, hkind, ha, hb, rfl⟩
  · cases h

/-- No condition, or one that compares two columns. -/
def IsColumnwise (condition : Option Predicate) : Prop :=
  ∀ p ∈ condition, ∃ c a b, p = .compare c (.column a) (.column b)

theorem columnwise_joinCondition {scope : Scope} {j : Join} {condition : Option Predicate}
    (h : joinCondition scope j = .ok condition) : IsColumnwise condition := by
  rintro p rfl
  obtain ⟨_, _, a, b, -, -, -, -, -, rfl⟩ := joinCondition_ok h
  exact ⟨_, a, b, rfl⟩

theorem columnwise_readJoins {scope : Scope} {js : List (Join × Source)} {joins : List Sql.Join}
    (h : readJoins scope js = .ok joins) : ∀ j ∈ joins, IsColumnwise j.condition := by
  induction js generalizing scope joins with
  | nil =>
    cases h
    exact List.forall_mem_nil _
  | cons j js ih =>
    obtain ⟨condition, rest, hcondition, hrest, rfl⟩ := readJoins_cons_iff.1 h
    exact List.forall_mem_cons.2 ⟨columnwise_joinCondition hcondition, ih hrest⟩

theorem Parts.sources_eq {d : Definition} {s : Select} {outputs : List OutputColumn} {sources : List Source}
    (h : Parts d s outputs sources) : s.joins.map (·.source) = sources := by
  rw [sources_readJoins h.joins]
  exact List.map_snd_zip (Nat.le_of_eq (mapM_ok_iff.1 h.joined).length_eq.symm)

end SpatialQuery.Definition
