import Mathlib.Data.List.Nodup
import SpatialQuery.Proofs.Geometry.Inference
import SpatialQuery.Proofs.Naming.Statements

/-!
The outputs of a statement describe its result: they name its columns, in number and order, as the naming rule of SQL
does, if no wildcard without a qualifier has a label; a statement with such an item is no SQL (`outputNames_iff`).
-/

namespace SpatialQuery.Naming

open Definition Sql
open SpatialQuery.Geometry (sourcesOf sources_of_compiled)

/-- The names that an output stands for. -/
def outputNames (catalog : Catalog) : OutputColumn → List String
  | .single name _ _ _ => [name]
  | .allOf r => ((catalog.columns? r).getD []).map (·.name)

/-! ## Qualifiers -/

theorem exposed_rangeOf (s : Source) : (rangeOf s).exposed = (exposed s).name := by
  obtain ⟨schema, table, label⟩ := s
  cases label <;> rfl

theorem name_inj {i j : Identifier} : i.name = j.name ↔ i = j := by
  obtain ⟨name, _⟩ := i
  obtain ⟨name', _⟩ := j
  simp

theorem isNamed_rangeOf (qualifier : List Identifier) (s : Source) :
    (rangeOf s).isNamed (qualifier.map (·.name)) = names qualifier s := by
  rw [Bool.eq_iff_iff, names_iff]
  rcases qualifier with _ | ⟨n, _ | ⟨m, _ | ⟨l, ls⟩⟩⟩
  · exact iff_of_false (fun h => by cases h) (fun h => by cases h)
  · rw [namedBy_single, List.map_singleton, Range.isNamed, beq_iff_eq, exposed_rangeOf]
    exact name_inj
  · rw [namedBy_pair]
    simp [Range.isNamed, rangeOf, Source.relation, name_inj]
  · exact iff_of_false (fun h => by cases h) (fun h => by cases h)

/-- A qualifier ends with the name that stands for the source. -/
theorem getLast?_of_namedBy {qualifier : List Identifier} {s : Source} (h : NamedBy s qualifier) :
    qualifier.getLast? = some (exposed s) := by
  rcases h with hlabel | hlabel | hlabel <;> simp [exposed, hlabel]

/-- Where the names of the sources are distinct, a qualifier names the source that it is resolved to and no other. -/
theorem filter_names {sources : List Source} (hnodup : (sources.map exposed).Nodup) {qualifier : List Identifier}
    (hq : qualifier ≠ []) {s : Source} (hs : Scope.resolve? sources qualifier = some s) :
    sources.filter (names qualifier) = [s] := by
  have hfind : sources.find? (names qualifier) = some s := by
    cases qualifier with
    | nil => exact absurd rfl hq
    | cons n ns => exact hs
  have hmem := List.mem_of_find?_eq_some hfind
  have hnamed := List.find?_some hfind
  have honly : ∀ t ∈ sources, names qualifier t = (t == s) := by
    intro t ht
    rw [Bool.eq_iff_iff, beq_iff_eq]
    refine ⟨fun h => ?_, fun h => by rw [h, hnamed]⟩
    have hlast := getLast?_of_namedBy (names_iff.1 h)
    rw [getLast?_of_namedBy (names_iff.1 hnamed)] at hlast
    exact List.inj_on_of_nodup_map hnodup ht hmem (Option.some.inj hlast).symm
  rw [List.filter_congr honly, List.filter_beq, List.count_eq_one_of_mem hnodup.of_map hmem]
  rfl

/-! ## Entries of items -/

section Entries

variable {i : Item}

/-- A column or an aggregate is named as its output is. -/
theorem entryOfItem?_single (h : i.column.column ≠ none ∨ i.aggregate ≠ none) :
    entryOfItem? i = some (.named (outputName i.label i.aggregate i.column.column)) := by
  obtain ⟨⟨qualifier, column⟩, aggregate, label⟩ := i
  cases aggregate with
  | some a => cases label <;> rfl
  | none =>
    cases column with
    | some column => cases label <;> rfl
    | none => simp at h

theorem entryOfItem?_qualified (hcolumn : i.column.column = none) (haggregate : i.aggregate = none)
    (hq : i.column.qualifier ≠ []) : entryOfItem? i = some (.star (i.column.qualifier.map (·.name))) := by
  obtain ⟨⟨qualifier, column⟩, aggregate, label⟩ := i
  obtain rfl : column = none := hcolumn
  obtain rfl : aggregate = none := haggregate
  cases qualifier with
  | nil => exact absurd rfl hq
  | cons n ns => cases label <;> rfl

theorem entryOfItem?_all (hcolumn : i.column = ⟨[], none⟩) (haggregate : i.aggregate = none) :
    entryOfItem? i = if i.label.isSome then none else some (.star []) := by
  obtain ⟨column, aggregate, label⟩ := i
  obtain rfl : column = ⟨[], none⟩ := hcolumn
  obtain rfl : aggregate = none := haggregate
  cases label <;> rfl

/-- Only a wildcard of all columns may not have a label. -/
theorem isSome_itemEntry? : (entryOfItem? i).isSome = true ↔
    (i.aggregate = none → i.column = ⟨[], none⟩ → i.label = none) := by
  by_cases hall : i.aggregate = none ∧ i.column = ⟨[], none⟩
  · rw [entryOfItem?_all hall.2 hall.1]
    cases hlabel : i.label with
    | none => exact iff_of_true rfl fun _ _ => rfl
    | some label => exact iff_of_false (by simp) fun h => nomatch h hall.1 hall.2
  · refine iff_of_true ?_ fun ha hc => absurd ⟨ha, hc⟩ hall
    by_cases hsingle : i.column.column ≠ none ∨ i.aggregate ≠ none
    · rw [entryOfItem?_single hsingle]
      rfl
    · rw [not_or, not_not, not_not] at hsingle
      have hq : i.column.qualifier ≠ [] := fun hq => hall ⟨hsingle.2, by rw [← hq, ← hsingle.1]⟩
      rw [entryOfItem?_qualified hsingle.1 hsingle.2 hq]
      rfl

end Entries

/-! ## Names of items -/

section Items

variable {catalog : Catalog} {sources : List Source}
  (hlisted : ∀ s ∈ sources, (catalog.columns? s.relation).isSome = true)

include hlisted

theorem names?_rangeOf {s : Source} (hs : s ∈ sources) :
    (rangeOf s).names? catalog = some (outputNames catalog (.allOf s.relation)) := by
  obtain ⟨columns, hcolumns⟩ := Option.isSome_iff_exists.1 (hlisted s hs)
  rw [Range.names?, rangeOf, outputNames, hcolumns]
  rfl

theorem names?_star : Entry.names? catalog (sources.map rangeOf) (.star []) =
    some ((allOutputs sources).flatMap (outputNames catalog)) := by
  have hall : (sources.map rangeOf).mapM (Range.names? catalog) =
      some (sources.map fun s => outputNames catalog (.allOf s.relation)) := by
    induction sources with
    | nil => rfl
    | cons s sources ih =>
      rw [List.map_cons, List.mapM_cons, names?_rangeOf hlisted List.mem_cons_self,
        ih fun t ht => hlisted t (List.mem_cons_of_mem s ht)]
      rfl
  rw [Entry.names?, hall, allOutputs, List.flatMap_map]
  rfl

/-- A qualifier that names one source only stands for the columns of that source. -/
theorem names?_qualified {qualifier : List Identifier} (hq : qualifier ≠ []) {s : Source}
    (h : sources.filter (names qualifier) = [s]) :
    Entry.names? catalog (sources.map rangeOf) (.star (qualifier.map (·.name))) =
      some (outputNames catalog (.allOf s.relation)) := by
  have hs : s ∈ sources := List.mem_of_mem_filter (by rw [h]; exact List.mem_singleton_self s)
  have honly : Range.only? (qualifier.map (·.name)) (sources.map rangeOf) = some (rangeOf s) := by
    have hcomp : Range.isNamed (qualifier.map (·.name)) ∘ rangeOf = names qualifier :=
      funext (isNamed_rangeOf qualifier)
    rw [Range.only?, List.filter_map, hcomp, h]
    rfl
  cases qualifier with
  | nil => exact absurd rfl hq
  | cons n ns =>
    change (Range.only? ((n :: ns).map (·.name)) (sources.map rangeOf)).bind (Range.names? catalog) = _
    rw [honly]
    exact names?_rangeOf hlisted hs

variable (hnodup : (sources.map exposed).Nodup)

include hnodup

/-- The columns that an item adds are those of its outputs. -/
theorem names?_item {i : Item} {outputs : List OutputColumn} (h : outputsOf sources i = .ok outputs) {e : Entry}
    (he : entryOfItem? i = some e) :
    e.names? catalog (sources.map rangeOf) = some (outputs.flatMap (outputNames catalog)) := by
  obtain ⟨hcolumn, haggregate, hq, rfl⟩ | ⟨s, hs, ⟨hcolumn, haggregate, hq, rfl⟩ | ⟨hsingle, rfl⟩⟩ :=
    outputsOf_cases h
  · rw [entryOfItem?_all (by rw [← hq, ← hcolumn]) haggregate] at he
    split at he
    · cases he
    · obtain rfl := Option.some.inj he
      exact names?_star hlisted
  · rw [entryOfItem?_qualified hcolumn haggregate hq] at he
    obtain rfl := Option.some.inj he
    rw [names?_qualified hlisted hq (filter_names hnodup hq hs), List.flatMap_singleton]
  · rw [entryOfItem?_single hsingle] at he
    obtain rfl := Option.some.inj he
    rfl

/-- The columns of all items in their order. -/
theorem names?_items {items : List Item} {os : List (List OutputColumn)}
    (h : List.Forall₂ (fun i o => outputsOf sources i = .ok o) items os)
    (hentries : ∀ i ∈ items, (entryOfItem? i).isSome = true) :
    ((items.mapM entryOfItem?).bind fun es => (es.mapM (Entry.names? catalog (sources.map rangeOf))).map List.flatten) =
      some (os.flatten.flatMap (outputNames catalog)) := by
  obtain ⟨es, hes, hnames⟩ : ∃ es, items.mapM entryOfItem? = some es ∧
      es.mapM (Entry.names? catalog (sources.map rangeOf)) = some (os.map (·.flatMap (outputNames catalog))) := by
    induction h with
    | nil => exact ⟨[], rfl, rfl⟩
    | @cons i o items os hi _ ih =>
      rw [List.forall_mem_cons] at hentries
      obtain ⟨e, he⟩ := Option.isSome_iff_exists.1 hentries.1
      obtain ⟨es, hes, hnames⟩ := ih hentries.2
      refine ⟨e :: es, ?_, ?_⟩
      · rw [List.mapM_cons, he, hes]
        rfl
      · rw [List.mapM_cons, names?_item hlisted hnodup hi he, hnames]
        rfl
  rw [hes, Option.bind_some, hnames, Option.map_some, ← List.flatMap_id (L := os), List.flatMap_assoc,
    List.flatMap_def]
  rfl

end Items

theorem isSome_of_mapM {α β : Type} {f : α → Option β} {xs : List α} {ys : List β} (h : xs.mapM f = some ys) :
    ∀ x ∈ xs, (f x).isSome = true := by
  induction xs generalizing ys with
  | nil => exact List.forall_mem_nil _
  | cons x xs ih =>
    rw [List.mapM_cons, Option.bind_eq_bind, Option.bind_eq_some_iff] at h
    obtain ⟨y, hy, h⟩ := h
    rw [Option.bind_eq_bind, Option.bind_eq_some_iff] at h
    obtain ⟨zs, hzs, -⟩ := h
    exact List.forall_mem_cons.2 ⟨by rw [hy]; rfl, ih hzs⟩

/-! ## Statements -/

/-- The columns of the result, from the items and the relations of the statement. -/
theorem resultNames?_statement {d : Definition} {s : Select} {outputs : List OutputColumn}
    (h : d.compiled = .ok (s, outputs)) (catalog : Catalog) :
    resultNames? catalog (Scan.ofString (statementOf s outputs).sql).tokens = (entries? s).bind fun es =>
      (es.mapM (Entry.names? catalog ((sourcesOf s).map rangeOf))).map List.flatten := by
  obtain ⟨sources, hparts⟩ := parts_of_compiled h
  have htokens : (Scan.ofString (statementOf s outputs).sql).tokens = Fragment.tokens 1 s.fragments :=
    tokens_ofString s
  rw [resultNames?, htokens, reading?_statement (columnwise_readJoins hparts.joins), sourcesOf, List.map_cons,
    List.map_map]
  cases entries? s <;> rfl

/-- The outputs of a statement name the columns of its result, in number and order, exactly if no wildcard of all
columns has a label: with one, the text is no statement of SQL. -/
theorem outputNames_iff {d : Definition} {s : Select} {outputs : List OutputColumn} {catalog : Catalog}
    (h : d.compiled = .ok (s, outputs))
    (hlisted : ∀ source ∈ sourcesOf s, (catalog.columns? source.relation).isSome = true)
    (hnodup : ((sourcesOf s).map exposed).Nodup) :
    resultNames? catalog (Scan.ofString (statementOf s outputs).sql).tokens =
        some (outputs.flatMap (outputNames catalog)) ↔
      ∀ i ∈ s.items, i.aggregate = none → i.column = ⟨[], none⟩ → i.label = none := by
  obtain ⟨groups, hlist⟩ := sources_of_compiled h
  have hentries : (∀ i ∈ s.items, i.aggregate = none → i.column = ⟨[], none⟩ → i.label = none) ↔
      ∀ i ∈ s.items, (entryOfItem? i).isSome = true :=
    forall₂_congr fun i _ => isSome_itemEntry?.symm
  rw [resultNames?_statement h catalog, hentries]
  obtain ⟨hitems, rfl⟩ | ⟨hitems, os, hos, rfl⟩ := outputs_of_list hlist
  · rw [entries?, hitems, List.isEmpty_nil, if_pos rfl, Option.bind_some, List.mapM_cons, names?_star hlisted]
    exact iff_of_true (by simp) (List.forall_mem_nil _)
  · rw [entries?, if_neg (by simpa using hitems)]
    refine ⟨fun hresult => ?_, names?_items hlisted hnodup hos⟩
    obtain ⟨es, hes, -⟩ := Option.bind_eq_some_iff.1 hresult
    exact isSome_of_mapM hes

/-- All columns of the roads between the names of their districts and their lengths. -/
def roadsOfDistricts : Definition where
  schema := "gis"
  table := "roads"
  label := some "r"
  columns := [⟨"d.name", none, some "district"⟩, ⟨"r.*", none, none⟩, ⟨"length", none, none⟩]
  joins := [⟨.left, "districts", "gis", some "d", some "r.district_id", some "d.id", .equal⟩]
  distinct := true

def roadCatalog : Catalog :=
  ⟨[(⟨"gis", "roads"⟩, [⟨"id", "integer"⟩, ⟨"district_id", "integer"⟩, ⟨"length", "real"⟩]),
    (⟨"gis", "districts"⟩, [⟨"id", "integer"⟩, ⟨"name", "text"⟩])]⟩

theorem outputNames_roads : ∃ s outputs, roadsOfDistricts.compiled = .ok (s, outputs) ∧
    resultNames? roadCatalog (Scan.ofString (statementOf s outputs).sql).tokens =
      some ["district", "id", "district_id", "length", "length"] := by
  let r : Identifier := ⟨"r", rfl⟩
  let d : Identifier := ⟨"d", rfl⟩
  let s : Select := ⟨true, [⟨⟨[d], some ⟨"name", rfl⟩⟩, none, some ⟨"district", rfl⟩⟩, ⟨⟨[r], none⟩, none, none⟩,
      ⟨⟨[], some ⟨"length", rfl⟩⟩, none, none⟩],
    ⟨⟨"gis", rfl⟩, ⟨"roads", rfl⟩, some r⟩, [⟨.left, ⟨⟨"gis", rfl⟩, ⟨"districts", rfl⟩, some d⟩,
      some (.compare .equal (.column ⟨[r], some ⟨"district_id", rfl⟩⟩) (.column ⟨[d], some ⟨"id", rfl⟩⟩))⟩],
    none, [], [], none, none⟩
  let outputs : List OutputColumn := [.single "district" ⟨"gis", "districts"⟩ (some "name") none,
    .allOf ⟨"gis", "roads"⟩, .single "length" ⟨"gis", "roads"⟩ (some "length") none]
  have hcompiled : roadsOfDistricts.compiled = .ok (s, outputs) := by with_unfolding_all rfl
  have hlisted : ∀ source ∈ sourcesOf s, (roadCatalog.columns? source.relation).isSome = true := by decide
  have hnodup : ((sourcesOf s).map exposed).Nodup := by decide
  refine ⟨s, outputs, hcompiled, (outputNames_iff hcompiled hlisted hnodup).2 ?_⟩
  decide

/-- All columns of a table, with a label for them. -/
def labelledAll : Definition where
  table := "t"
  columns := [⟨"*", none, some "x"⟩]

/-- The label is written behind the wildcard, where no label may stand, but the outputs are still described. -/
theorem outputNames_labelledAll : ∃ s outputs, labelledAll.compiled = .ok (s, outputs) ∧
    (statementOf s outputs).sql = "SELECT * AS \"x\" FROM \"public\".\"t\"" ∧ outputs = [.allOf ⟨"public", "t"⟩] ∧
      ∀ catalog, resultNames? catalog (Scan.ofString (statementOf s outputs).sql).tokens = none := by
  let s : Select := ⟨false, [⟨⟨[], none⟩, none, some ⟨"x", rfl⟩⟩], ⟨⟨"public", rfl⟩, ⟨"t", rfl⟩, none⟩,
    [], none, [], [], none, none⟩
  have hcompiled : labelledAll.compiled = .ok (s, [.allOf ⟨"public", "t"⟩]) := by with_unfolding_all rfl
  refine ⟨s, _, hcompiled, by decide, rfl, fun catalog => ?_⟩
  rw [resultNames?_statement hcompiled]
  rfl

end SpatialQuery.Naming
