import SpatialQuery.Proofs.Definition.Scopes
import SpatialQuery.Proofs.Meaning.Filter

/-!
Grouping. Beside aggregates, a definition is refused for the first column that is neither aggregated nor covered by a
group (`compiled_ungrouped_iff`, `ungrouped_reported`). A group covers a column by its spelling, which is what it
refers to where neither has to be told apart from another source (`coveredBy_iff_meant`).
-/

namespace SpatialQuery.Definition

open Sql

/-! ## Groups and columns -/

/-- The groups that cover a column: the same reference, and without a qualifier the name of the column, or its label. -/
inductive CoveredBy (c : ColumnRef) (label : Option Identifier) : ColumnRef → Prop
  | same : CoveredBy c label c
  | name : CoveredBy c label ⟨[], c.column⟩
  | label {l : Identifier} : label = some l → CoveredBy c label ⟨[], some l⟩

theorem covers_iff {c group : ColumnRef} {label : Option Identifier} :
    covers c label group = true ↔ CoveredBy c label group := by
  obtain ⟨qualifier, column⟩ := group
  simp only [covers, Bool.or_eq_true, Bool.and_eq_true, beq_iff_eq, List.isEmpty_iff, Option.isSome_iff_exists]
  constructor
  · rintro (rfl | ⟨rfl, rfl | ⟨⟨l, rfl⟩, rfl⟩⟩)
    · exact .same
    · exact .name
    · exact .label rfl
  · rintro (_ | _ | hlabel)
    · exact .inl rfl
    · exact .inr ⟨rfl, .inl rfl⟩
    · exact .inr ⟨rfl, .inr ⟨⟨_, hlabel⟩, hlabel.symm⟩⟩

/-- A group that refers to the column itself, or without a qualifier to its label. -/
def Meant (scope : Scope) (c : ColumnRef) (label : Option Identifier) (group : ColumnRef) : Prop :=
  (scope.resolve? group.qualifier = scope.resolve? c.qualifier ∧ group.column = c.column) ∨
    group.qualifier = [] ∧ ∃ l, label = some l ∧ group.column = some l

/-- Groups without a qualifier cover the columns of the first source that they refer to. -/
theorem coveredBy_iff_meant {scope : Scope} {c group : ColumnRef} {label : Option Identifier}
    (hc : scope.resolve? c.qualifier = scope.head?) (hgroup : group.qualifier = []) :
    CoveredBy c label group ↔ Meant scope c label group := by
  obtain ⟨qualifier, column⟩ := group
  obtain rfl : qualifier = [] := hgroup
  constructor
  · rintro (_ | _ | hlabel)
    · exact .inl ⟨rfl, rfl⟩
    · exact .inl ⟨hc.symm, rfl⟩
    · exact .inr ⟨rfl, _, hlabel, rfl⟩
  · rintro (⟨-, rfl⟩ | ⟨-, l, hlabel, rfl⟩)
    · exact .name
    · exact .label hlabel

/-! ## Definitions whose references belong to their sources -/

/-- A column that is read as a reference, which belongs to a source, with its label. Only counts are of all columns. -/
structure Column.ReadsAs (scope : Scope) (column : Column) (c : ColumnRef) (label : Option Identifier) : Prop where
  ref : readRef column.source = .ok c
  label : readLabel column.label = .ok label
  resolves : (scope.resolve? c.qualifier).isSome = true
  counted : c.isWildcard = true → column.aggregate = some .count

/-- The sources, the groups and the columns of a definition are read. -/
structure Readable (d : Definition) (scope : Scope) (groups : List ColumnRef) : Prop where
  sources : ∃ source sources joins, readSource d.schema d.table d.label = .ok source ∧
    d.joins.mapM joinSource = .ok sources ∧ readJoins [source] (d.joins.zip sources) = .ok joins ∧
      scope = source :: sources
  groups : d.groupBy.mapM (columnIn scope) = .ok groups
  columns : ∀ column ∈ d.columns, ∃ c label, column.ReadsAs scope c label

/-- A column without an aggregate that no group covers. -/
def Ungrouped (covered : ColumnRef → Option Identifier → ColumnRef → Prop) (groups : List ColumnRef)
    (column : Column) : Prop :=
  column.aggregate = none ∧ ∃ c label, readRef column.source = .ok c ∧ readLabel column.label = .ok label ∧
    ∀ group ∈ groups, ¬covered c label group

section Columns

variable {scope : Scope} {groups : List ColumnRef} {column : Column} {c : ColumnRef} {label : Option Identifier}

theorem Column.ReadsAs.ungrouped_iff (h : column.ReadsAs scope c label)
    {covered : ColumnRef → Option Identifier → ColumnRef → Prop} :
    Ungrouped covered groups column ↔ column.aggregate = none ∧ ∀ group ∈ groups, ¬covered c label group := by
  constructor
  · rintro ⟨hnone, c', label', hc, hlabel, hgroups⟩
    obtain rfl := Except.ok.inj (h.ref.symm.trans hc)
    obtain rfl := Except.ok.inj (h.label.symm.trans hlabel)
    exact ⟨hnone, hgroups⟩
  · exact fun ⟨hnone, hgroups⟩ => ⟨hnone, c, label, h.ref, h.label, hgroups⟩

theorem Column.ReadsAs.outputs (h : column.ReadsAs scope c label) :
    ∃ outputs, outputsOf scope ⟨c, column.aggregate, label⟩ = .ok outputs := by
  obtain ⟨s, hs⟩ := Option.isSome_iff_exists.1 h.resolves
  simp only [outputsOf, Scope.resolve, hs]
  split
  · exact ⟨_, rfl⟩
  · split <;> exact ⟨_, rfl⟩

theorem Column.ReadsAs.check (h : column.ReadsAs scope c label) (groups : List ColumnRef) :
    (Ungrouped CoveredBy groups column ∧
      checkAggregation true groups column c label = .error (.ungroupedColumn column.source)) ∨
    (¬Ungrouped CoveredBy groups column ∧ checkAggregation true groups column c label = .ok ()) := by
  rw [h.ungrouped_iff]
  unfold checkAggregation
  cases haggregate : column.aggregate with
  | some a =>
    refine .inr ⟨fun hnone => absurd hnone.1 (by simp), ?_⟩
    cases a with
    | count => rfl
    | _ =>
      have hsingle : ¬c.isWildcard = true := fun hc => by simpa [haggregate] using h.counted hc
      simp [hsingle]
  | none =>
    have hsingle : ¬c.isWildcard = true := fun hc => by simpa [haggregate] using h.counted hc
    by_cases hcovered : groups.any (covers c label) = true
    · obtain ⟨group, hgroup, hcovers⟩ := List.any_eq_true.1 hcovered
      exact .inr ⟨fun hnone => hnone.2 group hgroup (covers_iff.1 hcovers), by simp [hsingle, hcovered]⟩
    · refine .inl ⟨⟨rfl, fun group hgroup hcovers => hcovered ?_⟩, by simp [hsingle, hcovered]⟩
      exact List.any_eq_true.2 ⟨group, hgroup, covers_iff.2 hcovers⟩

/-- Beside aggregates, the item of a column is refused exactly if no group covers the column. -/
theorem Column.ReadsAs.selectItem (h : column.ReadsAs scope c label) (groups : List ColumnRef) :
    (Ungrouped CoveredBy groups column ∧
      selectItem scope true groups column = .error (.ungroupedColumn column.source)) ∨
    (¬Ungrouped CoveredBy groups column ∧ ∃ item, selectItem scope true groups column = .ok item) := by
  obtain ⟨hungrouped, hcheck⟩ | ⟨hgrouped, hcheck⟩ := h.check groups
  · exact .inl ⟨hungrouped, bind_error_iff.2 (.inr ⟨c, h.ref, bind_error_iff.2 (.inr ⟨label, h.label,
      bind_error_iff.2 (.inl hcheck)⟩)⟩)⟩
  · obtain ⟨outputs, houtputs⟩ := h.outputs
    exact .inr ⟨hgrouped, _, bind_ok_iff.2 ⟨c, h.ref, bind_ok_iff.2 ⟨label, h.label, bind_ok_iff.2 ⟨(), hcheck,
      bind_ok_iff.2 ⟨outputs, houtputs, rfl⟩⟩⟩⟩⟩

end Columns

/-! ## Definitions with aggregates -/

section Definitions

variable {d : Definition} {scope : Scope} {groups : List ColumnRef}

theorem Readable.selectItem_error_iff (h : Readable d scope groups) {column : Column} (hcolumn : column ∈ d.columns)
    {e : Malformed} : selectItem scope true groups column = .error e ↔
      Ungrouped CoveredBy groups column ∧ e = .ungroupedColumn column.source := by
  obtain ⟨c, label, hreads⟩ := h.columns column hcolumn
  obtain ⟨hungrouped, herror⟩ | ⟨hgrouped, item, hok⟩ := hreads.selectItem groups
  · rw [herror, Except.error.injEq, eq_comm]
    exact (and_iff_right hungrouped).symm
  · rw [hok]
    exact iff_of_false nofun fun h => hgrouped h.1

theorem Readable.selectItem_ok_iff (h : Readable d scope groups) {column : Column} (hcolumn : column ∈ d.columns) :
    (∃ item, selectItem scope true groups column = .ok item) ↔ ¬Ungrouped CoveredBy groups column := by
  obtain ⟨c, label, hreads⟩ := h.columns column hcolumn
  obtain ⟨hungrouped, herror⟩ | ⟨hgrouped, hok⟩ := hreads.selectItem groups
  · rw [herror]
    exact iff_of_false (fun ⟨_, hok⟩ => by cases hok) (not_not_intro hungrouped)
  · exact iff_of_true hok hgrouped

/-- The first column that no group covers is reported. -/
def FirstUngrouped (d : Definition) (groups : List ColumnRef) (column : Column) : Prop :=
  ∃ before after, d.columns = before ++ column :: after ∧ Ungrouped CoveredBy groups column ∧
    ∀ b ∈ before, ¬Ungrouped CoveredBy groups b

theorem exists_firstUngrouped (h : ∃ column ∈ d.columns, Ungrouped CoveredBy groups column) :
    ∃ column, FirstUngrouped d groups column := by
  classical
  obtain ⟨column, hmem, hcolumn⟩ := h
  cases hfind : d.columns.find? (fun c => decide (Ungrouped CoveredBy groups c)) with
  | none => exact absurd (decide_eq_true hcolumn) (List.find?_eq_none.1 hfind column hmem)
  | some first =>
    obtain ⟨hfirst, before, after, hsplit, hbefore⟩ := List.find?_eq_some_iff_append.1 hfind
    exact ⟨first, before, after, hsplit, of_decide_eq_true hfirst, fun b hb => by simpa using hbefore b hb⟩

theorem Readable.selectList_error_iff (h : Readable d scope groups) (haggregate : d.hasAggregate = true)
    {e : Malformed} : selectList d scope groups = .error e ↔
      ∃ column, FirstUngrouped d groups column ∧ e = .ungroupedColumn column.source := by
  have hcolumns : ¬d.columns.isEmpty = true := by
    intro hempty
    rw [Definition.hasAggregate, List.isEmpty_iff.1 hempty] at haggregate
    cases haggregate
  rw [selectList, if_neg hcolumns, haggregate]
  constructor
  · intro herror
    obtain herror | ⟨_, -, herror⟩ := bind_error_iff.1 herror
    · obtain ⟨before, column, after, hsplit, hitem, hbefore⟩ := mapM_error_iff.1 herror
      have hmem : ∀ b ∈ before ++ column :: after, b ∈ d.columns := fun b hb => hsplit ▸ hb
      obtain ⟨hcolumn, he⟩ := (h.selectItem_error_iff (hmem column (by simp))).1 hitem
      refine ⟨column, ⟨before, after, hsplit, hcolumn, fun b hb => ?_⟩, he⟩
      exact (h.selectItem_ok_iff (hmem b (by simp [hb]))).1 (hbefore b hb)
    · cases herror
  · rintro ⟨column, ⟨before, after, hsplit, hcolumn, hbefore⟩, rfl⟩
    have hmem : ∀ b ∈ before ++ column :: after, b ∈ d.columns := fun b hb => hsplit ▸ hb
    refine bind_error_iff.2 (.inl (mapM_error_iff.2 ⟨before, column, after, hsplit, ?_, fun b hb => ?_⟩))
    · exact (h.selectItem_error_iff (hmem column (by simp))).2 ⟨hcolumn, rfl⟩
    · exact (h.selectItem_ok_iff (hmem b (by simp [hb]))).2 (hbefore b hb)

/-- The refusal of a column that no group covers. Filters and orders are refused for other reasons. -/
def Malformed.IsUngrouped : Malformed → Prop
  | .ungroupedColumn _ => True
  | _ => False

theorem columnIn_error {text : String} {e : Malformed} (h : columnIn scope text = .error e) :
    ¬Malformed.IsUngrouped e := by
  obtain hread | ⟨c, -, h⟩ := bind_error_iff.1 h
  · unfold readRef at hread
    split at hread
    · cases hread
    · cases hread
      exact id
  · split at h
    · cases h
      exact id
    · obtain hresolve | ⟨_, -, h⟩ := bind_error_iff.1 h
      · unfold Scope.resolve at hresolve
        split at hresolve
        · cases hresolve
        · cases hresolve
          exact id
      · cases h

theorem condition_error {c : Condition} {e : Malformed} (h : conditionPredicate scope c = .error e) :
    ¬Malformed.IsUngrouped e := by
  unfold conditionPredicate at h
  split at h
  · rename_i hcolumn
    cases h
    exact columnIn_error hcolumn
  · split at h
    · cases h
      exact id
    · cases h

theorem filterFrom_error {p : Predicate} {cs : List Condition} {e : Malformed}
    (h : filterFrom scope p cs = .error e) : ¬Malformed.IsUngrouped e := by
  induction cs generalizing p with
  | nil => cases h
  | cons c cs ih =>
    rw [Meaning.filterFrom_cons] at h
    obtain hcondition | ⟨_, -, h⟩ := bind_error_iff.1 h
    · exact condition_error hcondition
    · exact ih h

theorem filter_error {cs : List Condition} {e : Malformed} (h : filter scope cs = .error e) :
    ¬Malformed.IsUngrouped e := by
  cases cs with
  | nil => cases h
  | cons c cs =>
    rw [Meaning.filter_cons] at h
    obtain hcondition | ⟨_, -, h⟩ := bind_error_iff.1 h
    · exact condition_error hcondition
    · exact filterFrom_error (map_error_iff.1 h)

theorem readOrder_error {o : Order} {e : Malformed} (h : readOrder scope o = .error e) : ¬Malformed.IsUngrouped e := by
  obtain hcolumn | ⟨_, -, h⟩ := bind_error_iff.1 h
  · exact columnIn_error hcolumn
  · cases h

theorem Readable.compiled_eq (h : Readable d scope groups) : ∃ source joins, d.compiled = do
    let (items, outputs) ← selectList d scope groups
    let condition ← filter scope d.conditions
    let orders ← d.orderBy.mapM (readOrder scope)
    return (⟨d.distinct, items, source, joins, condition, groups, orders, d.limit, d.offset⟩, outputs) := by
  obtain ⟨source, sources, joins, hsource, hsources, hjoins, rfl⟩ := h.sources
  refine ⟨source, joins, ?_⟩
  simp only [compiled, hsource, hsources, hjoins, h.groups, ok_bind]

theorem Readable.compiled_error_iff (h : Readable d scope groups) {text : String} :
    d.compiled = .error (.ungroupedColumn text) ↔ selectList d scope groups = .error (.ungroupedColumn text) := by
  obtain ⟨source, joins, heq⟩ := h.compiled_eq
  rw [heq]
  constructor
  · intro herror
    obtain herror | ⟨_, -, herror⟩ := bind_error_iff.1 herror
    · exact herror
    · obtain herror | ⟨_, -, herror⟩ := bind_error_iff.1 herror
      · exact absurd trivial (filter_error herror)
      · obtain herror | ⟨_, -, herror⟩ := bind_error_iff.1 herror
        · obtain ⟨_, _, _, -, horder, -⟩ := mapM_error_iff.1 herror
          exact absurd trivial (readOrder_error horder)
        · cases herror
  · exact fun herror => bind_error_iff.2 (.inl herror)

/-- Beside aggregates, a definition is refused as ungrouped exactly if a column is neither aggregated nor covered by a
group. -/
theorem compiled_ungrouped_iff (h : Readable d scope groups) (haggregate : d.hasAggregate = true) :
    (∃ text, d.compiled = .error (.ungroupedColumn text)) ↔
      ∃ column ∈ d.columns, Ungrouped CoveredBy groups column := by
  constructor
  · rintro ⟨text, herror⟩
    obtain ⟨column, ⟨before, after, hsplit, hungrouped, -⟩, -⟩ :=
      (h.selectList_error_iff haggregate).1 (h.compiled_error_iff.1 herror)
    exact ⟨column, by simp [hsplit], hungrouped⟩
  · intro hungrouped
    obtain ⟨column, hfirst⟩ := exists_firstUngrouped hungrouped
    exact ⟨_, h.compiled_error_iff.2 ((h.selectList_error_iff haggregate).2 ⟨column, hfirst, rfl⟩)⟩

theorem ungrouped_reported (h : Readable d scope groups) (haggregate : d.hasAggregate = true) {text : String}
    (herror : d.compiled = .error (.ungroupedColumn text)) :
    ∃ column, FirstUngrouped d groups column ∧ column.source = text := by
  obtain ⟨column, hfirst, heq⟩ := (h.selectList_error_iff haggregate).1 (h.compiled_error_iff.1 herror)
  exact ⟨column, hfirst, (Malformed.ungroupedColumn.inj heq).symm⟩

end Definitions

/-! ## Spelling and meaning -/

/-- Countries, counted by one of their columns. -/
def counted (source group : String) (joins : List Join) : Definition :=
  { table := "countries", columns := [⟨source, none, none⟩, ⟨"*", some .count, none⟩], groupBy := [group], joins }

def country : Source :=
  ⟨⟨Relation.publicSchema, rfl⟩, ⟨"countries", rfl⟩, none⟩

def region : Source :=
  ⟨⟨Relation.publicSchema, rfl⟩, ⟨"regions", rfl⟩, none⟩

theorem country_read : readSource Relation.publicSchema "countries" none = .ok country := by
  decide +kernel

theorem region_read : readSource Relation.publicSchema "regions" none = .ok region := by
  decide +kernel

theorem counted_column {source : String} {scope : Scope} {c : ColumnRef} (hc : readRef source = .ok c)
    (hsingle : c.isWildcard = false) (hresolves : (scope.resolve? c.qualifier).isSome = true) :
    (⟨source, none, none⟩ : Column).ReadsAs scope c none :=
  ⟨hc, rfl, hresolves, fun h => by simp [hsingle] at h⟩

theorem counted_readable {source group : String} {joins : List Join} {sources : List Source} {read : List Sql.Join}
    {c g : ColumnRef} (hsources : joins.mapM joinSource = .ok sources)
    (hjoins : readJoins [country] (joins.zip sources) = .ok read) (hgroup : columnIn (country :: sources) group = .ok g)
    (hcolumn : (⟨source, none, none⟩ : Column).ReadsAs (country :: sources) c none) :
    Readable (counted source group joins) (country :: sources) [g] := by
  have hall : (⟨"*", some .count, none⟩ : Column).ReadsAs (country :: sources) ⟨[], none⟩ none :=
    ⟨by with_unfolding_all rfl, rfl, rfl, fun _ => rfl⟩
  refine ⟨⟨country, sources, read, country_read, hsources, hjoins, rfl⟩, ?_, ?_⟩
  · exact mapM_ok_iff.2 (.cons hgroup .nil)
  · exact List.forall_mem_cons.2 ⟨⟨_, _, hcolumn⟩, List.forall_mem_singleton.2 ⟨_, _, hall⟩⟩

theorem counted_ungrouped_iff {source group : String} {joins : List Join} {scope : Scope} {c : ColumnRef}
    {groups : List ColumnRef} {covered : ColumnRef → Option Identifier → ColumnRef → Prop}
    (h : (⟨source, none, none⟩ : Column).ReadsAs scope c none) :
    (∃ column ∈ (counted source group joins).columns, Ungrouped covered groups column) ↔
      ∀ g ∈ groups, ¬covered c none g := by
  have hcount : ¬Ungrouped covered groups ⟨"*", some .count, none⟩ := fun hcount => nomatch hcount.1
  simp [counted, h.ungrouped_iff, hcount]

theorem counted_compiled {source group : String} {joins : List Join} {scope : Scope} {groups : List ColumnRef}
    (h : Readable (counted source group joins) scope groups)
    (hcovered : ¬∃ column ∈ (counted source group joins).columns, Ungrouped CoveredBy groups column) :
    ∃ s outputs, (counted source group joins).compiled = .ok (s, outputs) := by
  obtain ⟨first, read, heq⟩ := h.compiled_eq
  cases hlist : selectList (counted source group joins) scope groups with
  | error e =>
    obtain ⟨column, ⟨before, after, hsplit, hcolumn, -⟩, -⟩ := (h.selectList_error_iff rfl).1 hlist
    exact absurd ⟨column, by simp [hsplit], hcolumn⟩ hcovered
  | ok list => exact ⟨_, _, by rw [heq, hlist]; rfl⟩

/-- The name of a country is a group for the column, with or without its table. -/
theorem counted_by_name : ∃ groups, Readable (counted "countries.name" "name" []) [country] groups ∧
    ¬∃ text, (counted "countries.name" "name" []).compiled = .error (.ungroupedColumn text) := by
  have hcolumn : (⟨"countries.name", none, none⟩ : Column).ReadsAs [country]
      ⟨[country.table], some ⟨"name", rfl⟩⟩ none :=
    counted_column (by with_unfolding_all rfl) rfl rfl
  have hreadable : Readable (counted "countries.name" "name" []) [country] [⟨[], some ⟨"name", rfl⟩⟩] :=
    counted_readable rfl rfl (by with_unfolding_all rfl) hcolumn
  refine ⟨_, hreadable, fun hrefused => ?_⟩
  have hungrouped := (counted_ungrouped_iff hcolumn).1 ((compiled_ungrouped_iff hreadable rfl).1 hrefused)
  exact hungrouped _ List.mem_cons_self .name

/-- `countries.name` is the column `name`, but is not spelled so; `regions.name` is not the name of a country, but is
grouped by it. -/
theorem grouped_by_spelling :
    (∃ groups, Readable (counted "name" "countries.name" []) [country] groups ∧
      (counted "name" "countries.name" []).compiled = .error (.ungroupedColumn "name") ∧
        ¬∃ column ∈ (counted "name" "countries.name" []).columns, Ungrouped (Meant [country]) groups column) ∧
    ∃ joins groups s outputs, Readable (counted "regions.name" "name" joins) [country, region] groups ∧
      (counted "regions.name" "name" joins).compiled = .ok (s, outputs) ∧
        ∃ column ∈ (counted "regions.name" "name" joins).columns,
          Ungrouped (Meant [country, region]) groups column := by
  let name : Identifier := ⟨"name", rfl⟩
  constructor
  · have hcolumn : (⟨"name", none, none⟩ : Column).ReadsAs [country] ⟨[], some name⟩ none :=
      counted_column (by with_unfolding_all rfl) rfl rfl
    have hreadable : Readable (counted "name" "countries.name" []) [country] [⟨[country.table], some name⟩] :=
      counted_readable rfl rfl (by with_unfolding_all rfl) hcolumn
    refine ⟨_, hreadable, by with_unfolding_all rfl, fun hungrouped => ?_⟩
    exact (counted_ungrouped_iff hcolumn).1 hungrouped _ List.mem_cons_self (.inl ⟨rfl, rfl⟩)
  · let join : Join := { kind := .cross, table := "regions" }
    have hcolumn : (⟨"regions.name", none, none⟩ : Column).ReadsAs [country, region] ⟨[region.table], some name⟩ none :=
      counted_column (by with_unfolding_all rfl) rfl rfl
    have hreadable : Readable (counted "regions.name" "name" [join]) [country, region] [⟨[], some name⟩] :=
      counted_readable (mapM_ok_iff.2 (.cons region_read .nil)) rfl (by with_unfolding_all rfl) hcolumn
    have hcovered : ¬∃ column ∈ (counted "regions.name" "name" [join]).columns,
        Ungrouped CoveredBy [⟨[], some name⟩] column :=
      fun hungrouped => (counted_ungrouped_iff hcolumn).1 hungrouped _ List.mem_cons_self .name
    obtain ⟨s, outputs, hcompiled⟩ := counted_compiled hreadable hcovered
    refine ⟨_, _, _, _, hreadable, hcompiled, (counted_ungrouped_iff hcolumn).2 ?_⟩
    rintro _ hg (⟨hsource, -⟩ | ⟨-, l, hlabel, -⟩)
    · obtain rfl := List.mem_singleton.1 hg
      exact absurd hsource (by decide)
    · cases hlabel

end SpatialQuery.Definition
