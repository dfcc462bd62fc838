import SpatialQuery.Proofs.Definition.Scopes
import SpatialQuery.Proofs.Geometry.Result

/-!
The geometry of a result, as it is inferred from declared types. A column is inferred exactly if it is the only geometry
of the result, unless a reference is attributed to a source without its column (`inferDeclared_iff`).
-/

namespace SpatialQuery.Geometry

open Sql Definition

/-! ## Candidates -/

def GeometryColumn.candidate (g : GeometryColumn) : Candidate :=
  ⟨g.name, some (g.type, g.srid)⟩

/-- The column as one of a result. -/
def Column.geometry (m : Column) : GeometryColumn :=
  ⟨m.name, m.type, some m.srid⟩

def declaredOf (catalog : Catalog) (outputs : List OutputColumn) : List Candidate :=
  outputs.flatMap (declaredIn catalog)

def candidates (cols : List ResultColumn) : List Candidate :=
  (geometries cols).map GeometryColumn.candidate

theorem candidate_injective : Function.Injective GeometryColumn.candidate := by
  rintro ⟨n, t, srid⟩ ⟨n', t', srid'⟩ h
  simpa [GeometryColumn.candidate] using h

@[simp] theorem candidates_append (xs ys : List ResultColumn) :
    candidates (xs ++ ys) = candidates xs ++ candidates ys := by
  simp [candidates, geometries]

theorem aggregated_eq (declared : Declared) (aggregate : Option Aggregate) :
    aggregated declared aggregate = (aggregateType? aggregate declared.type).map (·, declared.srid) := by
  rcases aggregate with _ | (_ | _ | _ | _ | _ | _ | _ | _) <;> rfl

/-- A reference is judged by the column of the relation that it is attributed to. -/
theorem declaredIn_single (catalog : Catalog) (name : String) (r : Relation) (column : String)
    (aggregate : Option Aggregate) : declaredIn catalog (.single name r (some column) aggregate) =
      candidates [⟨name, catalog.declaredType? r column, aggregate⟩] := by
  simp only [declaredIn, candidates, geometries, List.filterMap_cons, List.filterMap_nil, ResultColumn.spatial?]
  cases catalog.declaredType? r column with
  | none => rfl
  | some declaredType =>
    cases hread : Declared.read? declaredType with
    | none => simp [hread]
    | some declared =>
      rw [Option.map_some, hread]
      simp only [aggregated_eq, bind, Option.bind_some, hread]
      cases aggregateType? aggregate declared.type <;> rfl

theorem declaredIn_allOf (catalog : Catalog) (s : Source) :
    declaredIn catalog (.allOf s.relation) = candidates (allColumns catalog s) := by
  have hgeometry : ∀ c : Catalog.Column, (⟨c.name, some c.declaredType, none⟩ : ResultColumn).spatial? =
      (Declared.read? c.declaredType).map fun declared => ⟨c.name, declared.type, declared.srid⟩ := by
    intro c
    simp only [ResultColumn.spatial?, bind, Option.bind_some]
    cases Declared.read? c.declaredType <;> rfl
  simp only [declaredIn, candidates, geometries, allColumns, columnsOf, List.filterMap_map, List.map_filterMap]
  refine List.filterMap_congr fun c _ => ?_
  rw [Function.comp_apply, hgeometry, Option.map_map]
  rfl

theorem declaredOf_allOutputs (catalog : Catalog) (sources : List Source) :
    declaredOf catalog (allOutputs sources) = candidates (sources.flatMap (allColumns catalog)) := by
  induction sources with
  | nil => rfl
  | cons s sources ih =>
    rw [List.flatMap_cons, candidates_append, ← ih, ← declaredIn_allOf]
    rfl

/-! ## Attribution -/

theorem hasColumn_eq (catalog : Catalog) (s : Source) (column : Identifier) :
    hasColumn catalog s column = (catalog.declaredType? s.relation column.name).isSome := by
  rw [hasColumn, columnsOf, Catalog.declaredType?]
  cases catalog.columns? s.relation with
  | none => rfl
  | some columns => rw [Option.isSome_map, List.isSome_find?]; rfl

theorem names_eq {qualifier : List Identifier} (h : qualifier ≠ []) (s : Source) :
    names qualifier s = isMeant qualifier s := by
  unfold names isMeant
  match qualifier, s.label with
  | [n], none => rfl
  | [n], some label => rfl
  | [schema, n], none => rfl
  | [schema, n], some label => rfl
  | _ :: _ :: _ :: _, none => rfl
  | _ :: _ :: _ :: _, some label => rfl

/-- The source that a reference is attributed to is one that it may be to. -/
theorem isMeant_of_resolve? {sources : List Source} {qualifier : List Identifier} {s : Source}
    (h : Scope.resolve? sources qualifier = some s) : s ∈ sources ∧ isMeant qualifier s = true := by
  cases qualifier with
  | nil => exact ⟨List.mem_of_mem_head? h, rfl⟩
  | cons n qualifier =>
    change sources.find? (names (n :: qualifier)) = some s at h
    have hnames := List.find?_some h
    rw [names_eq (List.cons_ne_nil _ _)] at hnames
    exact ⟨List.mem_of_find?_eq_some h, hnames⟩

/-- A source that a reference is attributed to and that has the column is the only one that it may be to. -/
theorem eq_of_owners {catalog : Catalog} {sources : List Source} {qualifier : List Identifier} {column : Identifier}
    {s owner : Source} (hresolve : Scope.resolve? sources qualifier = some s)
    (howners : owners catalog sources qualifier column = [owner]) (hhas : hasColumn catalog s column = true) :
    s = owner := by
  obtain ⟨hmem, hmeant⟩ := isMeant_of_resolve? hresolve
  have hs : s ∈ owners catalog sources qualifier column :=
    List.mem_filter.2 ⟨hmem, by rw [hmeant, hhas, Bool.and_self]⟩
  rw [howners] at hs
  exact List.mem_singleton.1 hs

/-! ## Items -/

/-- What is inferred from an item: its geometries, or nothing where the item is overlooked. -/
structure Inferred (catalog : Catalog) (sources : List Source) (i : Item) (outputs : List OutputColumn)
    (cols : List ResultColumn) : Prop where
  seen : isOverlooked catalog sources i = false → declaredOf catalog outputs = candidates cols
  overlooked : isOverlooked catalog sources i = true → declaredOf catalog outputs = [] ∧ candidates cols ≠ []

theorem inferred_wildcard {catalog : Catalog} {sources : List Source} {i : Item} {outputs : List OutputColumn}
    {cols : List ResultColumn} (hcolumn : i.column.column = none)
    (h : declaredOf catalog outputs = candidates cols) : Inferred catalog sources i outputs cols := by
  have hseen : isOverlooked catalog sources i = false := by rw [isOverlooked, hcolumn]
  exact ⟨fun _ => h, fun ho => absurd ho (by simp [hseen])⟩

theorem inferred_single {catalog : Catalog} {sources : List Source} {i : Item} {column : Identifier} {name : String}
    {s owner : Source} (hcolumn : i.column.column = some column)
    (hresolve : Scope.resolve? sources i.column.qualifier = some s)
    (howners : owners catalog sources i.column.qualifier column = [owner])
    (hresult : itemResult? catalog sources i =
      some [⟨name, catalog.declaredType? owner.relation column.name, i.aggregate⟩]) :
    Inferred catalog sources i [.single name s.relation (some column.name) i.aggregate]
      [⟨name, catalog.declaredType? owner.relation column.name, i.aggregate⟩] := by
  have hdeclared : declaredOf catalog [.single name s.relation (some column.name) i.aggregate] =
      candidates [⟨name, catalog.declaredType? s.relation column.name, i.aggregate⟩] := by
    rw [← declaredIn_single]
    exact List.append_nil _
  have hoverlooked : isOverlooked catalog sources i = (!hasColumn catalog s column &&
      decide (geometries [⟨name, catalog.declaredType? owner.relation column.name, i.aggregate⟩] ≠ [])) := by
    rw [isOverlooked, hcolumn, hresolve, hresult]
    rfl
  -- where another source owns the column, its type is not looked up
  cases hhas : hasColumn catalog s column with
  | true =>
    obtain rfl := eq_of_owners hresolve howners hhas
    rw [hhas] at hoverlooked
    exact ⟨fun _ => hdeclared, fun ho => absurd ho (by simp [hoverlooked])⟩
  | false =>
    have hnone : catalog.declaredType? s.relation column.name = none := by
      rwa [hasColumn_eq, Option.isSome_eq_false_iff, Option.isNone_iff_eq_none] at hhas
    rw [hnone] at hdeclared
    have hnil : declaredOf catalog [.single name s.relation (some column.name) i.aggregate] = [] := hdeclared
    rw [hhas, Bool.not_false, Bool.true_and] at hoverlooked
    refine ⟨fun hseen => ?_, fun ho => ⟨hnil, ?_⟩⟩
    · rw [hoverlooked, decide_eq_false_iff_not, not_not] at hseen
      rw [hnil, candidates, hseen]
      rfl
    · rw [hoverlooked, decide_eq_true_eq] at ho
      simpa [candidates] using ho

theorem outputName_eq (label : Option Identifier) (aggregate : Option Aggregate) (column : Option Identifier) :
    outputName label aggregate column = (label.map (·.name)).getD (defaultName aggregate column) := by
  cases label with
  | some label => rfl
  | none => cases aggregate <;> rfl

theorem inferred_item {catalog : Catalog} {sources : List Source} {i : Item} {outputs : List OutputColumn}
    {cols : List ResultColumn} (houtputs : outputsOf sources i = .ok outputs)
    (hresult : itemResult? catalog sources i = some cols) : Inferred catalog sources i outputs cols := by
  have hr := hresult
  unfold itemResult? at hr
  obtain ⟨hcolumn, haggregate, hq, rfl⟩ | ⟨s, hs, ⟨hcolumn, haggregate, hq, rfl⟩ | ⟨hsingle, rfl⟩⟩ :=
    outputsOf_cases houtputs
  · simp only [hcolumn, haggregate, hq] at hr
    obtain rfl := Option.some.inj hr
    have hall : sources.filter (isMeant []) = sources := List.filter_eq_self.2 fun s _ => rfl
    rw [hall]
    exact inferred_wildcard hcolumn (declaredOf_allOutputs catalog sources)
  · simp only [hcolumn, haggregate] at hr
    have hmem : s ∈ sources.filter (isMeant i.column.qualifier) := List.mem_filter.2 (isMeant_of_resolve? hs)
    refine inferred_wildcard hcolumn ?_
    split at hr
    · contradiction
    · rename_i owner howner _
      rw [howner, List.mem_singleton] at hmem
      obtain rfl := Option.some.inj hr
      rw [← hmem, ← declaredIn_allOf]
      exact List.append_nil _
    · cases hr
  · cases hcolumn : i.column.column with
    | none =>
      -- only rows are counted without a column
      cases haggregate : i.aggregate with
      | none => simp [hcolumn, haggregate] at hsingle
      | some a =>
        simp only [hcolumn, haggregate] at hr
        obtain rfl := Option.some.inj hr
        exact inferred_wildcard hcolumn rfl
    | some column =>
      simp only [hcolumn] at hr
      split at hr
      · rename_i owner howner
        obtain rfl := Option.some.inj hr
        rw [← outputName_eq] at hresult ⊢
        exact inferred_single hcolumn hs howner hresult
      · cases hr

/-! ## Statements -/

/-- What is inferred from the items of a statement, in their order. -/
theorem inferred_items {catalog : Catalog} {sources : List Source} {items : List Item}
    {os : List (List OutputColumn)} {colss : List (List ResultColumn)}
    (houtputs : List.Forall₂ (fun i o => outputsOf sources i = .ok o) items os)
    (hresult : items.mapM (itemResult? catalog sources) = some colss) :
    (declaredOf catalog os.flatten).Sublist (candidates colss.flatten) ∧
      (declaredOf catalog os.flatten = candidates colss.flatten ↔
        ∀ i ∈ items, isOverlooked catalog sources i = false) := by
  induction houtputs generalizing colss with
  | nil =>
    obtain rfl := Option.some.inj hresult
    exact ⟨.slnil, by simp [declaredOf, candidates, geometries]⟩
  | @cons i o items os hi _ ih =>
    rw [List.mapM_cons, Option.bind_eq_bind, Option.bind_eq_some_iff] at hresult
    obtain ⟨cols, hcols, hresult⟩ := hresult
    rw [Option.bind_eq_bind, Option.bind_eq_some_iff] at hresult
    obtain ⟨colss, hcolss, hresult⟩ := hresult
    obtain rfl := Option.some.inj hresult
    obtain ⟨hsub, hiff⟩ := ih hcolss
    obtain ⟨hseen, hoverlooked⟩ := inferred_item hi hcols
    rw [List.flatten_cons, List.flatten_cons, candidates_append, declaredOf, List.flatMap_append]
    change (declaredOf catalog o ++ declaredOf catalog os.flatten).Sublist _ ∧
      (declaredOf catalog o ++ declaredOf catalog os.flatten = _ ↔ _)
    rw [List.forall_mem_cons]
    -- an overlooked item has geometries in the result and declares none
    cases hi : isOverlooked catalog sources i with
    | false =>
      rw [hseen hi, List.append_right_inj, hiff]
      exact ⟨hsub.append_left _, by simp⟩
    | true =>
      obtain ⟨hnil, hne⟩ := hoverlooked hi
      rw [hnil, List.nil_append]
      refine ⟨hsub.trans (List.sublist_append_right _ _), iff_of_false (fun he => ?_) (by simp)⟩
      have hle := hsub.length_le
      have hpos := List.length_pos_iff.2 hne
      rw [he, List.length_append] at hle
      omega

theorem sources_of_compiled {d : Definition} {s : Select} {outputs : List OutputColumn}
    (h : d.compiled = .ok (s, outputs)) : ∃ groups, selectList d (sourcesOf s) groups = .ok (s.items, outputs) := by
  obtain ⟨sources, hparts⟩ := parts_of_compiled h
  refine ⟨s.groupBy, ?_⟩
  rw [sourcesOf, hparts.sources_eq]
  exact hparts.list

/-- All that is inferred of a statement is in its result, and it is all of the geometries if no item is overlooked. -/
theorem inferred_statement {d : Definition} {s : Select} {outputs : List OutputColumn} {catalog : Catalog}
    {cols : List ResultColumn} (hcompiled : d.compiled = .ok (s, outputs)) (hresult : result? catalog s = some cols) :
    (declaredOf catalog outputs).Sublist (candidates cols) ∧
      (declaredOf catalog outputs = candidates cols ↔
        ∀ i ∈ s.items, isOverlooked catalog (sourcesOf s) i = false) := by
  obtain ⟨groups, hlist⟩ := sources_of_compiled hcompiled
  unfold result? at hresult
  split at hresult
  · cases hresult
  obtain ⟨hitems, rfl⟩ | ⟨hitems, os, hos, rfl⟩ := outputs_of_list hlist
  · rw [hitems, List.isEmpty_nil, if_pos rfl] at hresult
    obtain rfl := Option.some.inj hresult
    rw [declaredOf_allOutputs, hitems]
    exact ⟨.refl _, by simp⟩
  · rw [if_neg (by simpa using hitems)] at hresult
    obtain ⟨colss, hcolss, rfl⟩ := Option.map_eq_some_iff.1 hresult
    exact inferred_items hos hcolss

/-! ## The choice -/

theorem choose_ok_iff {cs : List Candidate} {m : Column} : choose cs = .ok m ↔ cs = [m.geometry.candidate] := by
  constructor
  · intro h
    unfold choose at h
    split at h
    · cases h
    · obtain rfl := Except.ok.inj h
      rfl
    · cases h
    · cases h
  · rintro rfl
    rfl

/-- A column that only has a usual name is never inferred. -/
theorem inferDeclared_ok_iff {outputs : List OutputColumn} {catalog : Catalog} {m : Column} :
    inferDeclared outputs catalog = .ok m ↔ declaredOf catalog outputs = [m.geometry.candidate] := by
  unfold inferDeclared declaredOf
  split
  · rename_i hnil
    rw [hnil, choose_ok_iff]
    refine iff_of_false (fun h => ?_) (by simp)
    have hmem : m.geometry.candidate ∈ outputs.flatMap (namedIn catalog) := by
      rw [h]
      exact List.mem_singleton_self _
    obtain ⟨o, -, ho⟩ := List.mem_flatMap.1 hmem
    unfold namedIn at ho
    split at ho
    · split at ho
      · rw [List.mem_singleton] at ho
        cases ho
      · cases ho
    · cases ho
  · exact choose_ok_iff

/-- If no item is overlooked, a column is inferred exactly if it is the only geometry of the result; otherwise what is
inferred is one of several. -/
theorem inferDeclared_iff {d : Definition} {s : Select} {outputs : List OutputColumn} {catalog : Catalog}
    {cols : List ResultColumn} (hcompiled : d.compiled = .ok (s, outputs)) (hresult : result? catalog s = some cols)
    (m : Column) :
    ((∀ i ∈ s.items, isOverlooked catalog (sourcesOf s) i = false) →
      (inferDeclared outputs catalog = .ok m ↔ geometries cols = [m.geometry])) ∧
    ((∃ i ∈ s.items, isOverlooked catalog (sourcesOf s) i = true) → inferDeclared outputs catalog = .ok m →
      m.geometry ∈ geometries cols ∧ 2 ≤ (geometries cols).length) := by
  obtain ⟨hsub, hiff⟩ := inferred_statement hcompiled hresult
  rw [inferDeclared_ok_iff]
  constructor
  · intro hseen
    rw [hiff.2 hseen]
    exact (List.map_injective_iff.2 candidate_injective).eq_iff (b := [m.geometry])
  · rintro ⟨i, hi, hoverlooked⟩ hdeclared
    have hne : declaredOf catalog outputs ≠ candidates cols := by
      intro he
      rw [hiff.1 he i hi] at hoverlooked
      cases hoverlooked
    rw [hdeclared] at hsub hne
    constructor
    · obtain ⟨g, hg, he⟩ := List.mem_map.1 (List.singleton_sublist.1 hsub)
      rwa [← candidate_injective he]
    · by_contra hlt
      have hlength : (candidates cols).length ≤ [m.geometry.candidate].length := by
        rw [candidates, List.length_map, List.length_singleton]
        omega
      exact hne (hsub.eq_of_length_le hlength)

/-! ## Two relations with a geometry each -/

/-- Columns of `a` and `b`, joined by the key of `a`. -/
def joinedShapes (columns : List Definition.Column) (groupBy : List String) : Definition :=
  { table := "a", columns, groupBy,
    joins := [{ kind := .inner, table := "b", left := some "a.id", right := some "b.a_id" }] }

def joinedSelect (items : List Item) (groupBy : List ColumnRef) : Select :=
  ⟨false, items, ⟨⟨"public", rfl⟩, ⟨"a", rfl⟩, none⟩,
    [⟨.inner, ⟨⟨"public", rfl⟩, ⟨"b", rfl⟩, none⟩, some (.compare .equal
      (.column ⟨[⟨"a", rfl⟩], some ⟨"id", rfl⟩⟩) (.column ⟨[⟨"b", rfl⟩], some ⟨"a_id", rfl⟩⟩))⟩],
    none, groupBy, [], none, none⟩

def shapeCatalog : Catalog :=
  ⟨[(⟨"public", "a"⟩, [⟨"id", "integer"⟩, ⟨"shape", "geometry(Point,4326)"⟩]),
    (⟨"public", "b"⟩, [⟨"a_id", "integer"⟩, ⟨"geom", "geometry(Polygon,3857)"⟩])]⟩

/-- The polygons of each `a` are one collection, the only geometry. -/
theorem inferDeclared_collected : ∃ s outputs cols,
    (joinedShapes [⟨"a.id", none, none⟩, ⟨"b.geom", some .collect, some "geom"⟩] ["a.id"]).compiled = .ok (s, outputs) ∧
      result? shapeCatalog s = some cols ∧ geometries cols = [⟨"geom", .multiPolygon, some 3857⟩] ∧
        inferDeclared outputs shapeCatalog = .ok ⟨"geom", .multiPolygon, 3857⟩ := by
  let key : ColumnRef := ⟨[⟨"a", rfl⟩], some ⟨"id", rfl⟩⟩
  let items : List Item := [⟨key, none, none⟩, ⟨⟨[⟨"b", rfl⟩], some ⟨"geom", rfl⟩⟩, some .collect, some ⟨"geom", rfl⟩⟩]
  let outputs : List OutputColumn := [.single "id" ⟨"public", "a"⟩ (some "id") none,
    .single "geom" ⟨"public", "b"⟩ (some "geom") (some .collect)]
  let cols : List ResultColumn := [⟨"id", some "integer", none⟩, ⟨"geom", some "geometry(Polygon,3857)", some .collect⟩]
  have hcompiled : (joinedShapes [⟨"a.id", none, none⟩, ⟨"b.geom", some .collect, some "geom"⟩] ["a.id"]).compiled =
      .ok (joinedSelect items [key], outputs) := by with_unfolding_all rfl
  have hresult : result? shapeCatalog (joinedSelect items [key]) = some cols := by with_unfolding_all rfl
  have hgeometries : geometries cols = [⟨"geom", .multiPolygon, some 3857⟩] := by decide +kernel
  obtain ⟨hseen, -⟩ := inferDeclared_iff hcompiled hresult ⟨"geom", .multiPolygon, 3857⟩
  exact ⟨_, _, _, hcompiled, hresult, hgeometries, (hseen (by decide +kernel)).2 hgeometries⟩

/-- The polygon belongs to `b`, is looked for in `a` and is not seen beside the point. -/
theorem inferred_one_of_two : ∃ s outputs cols,
    (joinedShapes [⟨"geom", none, none⟩, ⟨"a.shape", none, none⟩] []).compiled = .ok (s, outputs) ∧
      result? shapeCatalog s = some cols ∧ inferDeclared outputs shapeCatalog = .ok ⟨"shape", .point, 4326⟩ ∧
        geometries cols = [⟨"geom", .polygon, some 3857⟩, ⟨"shape", .point, some 4326⟩] := by
  let items : List Item := [⟨⟨[], some ⟨"geom", rfl⟩⟩, none, none⟩, ⟨⟨[⟨"a", rfl⟩], some ⟨"shape", rfl⟩⟩, none, none⟩]
  let outputs : List OutputColumn := [.single "geom" ⟨"public", "a"⟩ (some "geom") none,
    .single "shape" ⟨"public", "a"⟩ (some "shape") none]
  refine ⟨joinedSelect items [], outputs, [⟨"geom", some "geometry(Polygon,3857)", none⟩,
    ⟨"shape", some "geometry(Point,4326)", none⟩], ?_, ?_, ?_, ?_⟩
  · with_unfolding_all rfl
  · with_unfolding_all rfl
  · decide +kernel
  · decide +kernel

end SpatialQuery.Geometry
