import SpatialQuery.GeoServer
import SpatialQuery.Proofs.Text.Trim
import SpatialQuery.Proofs.View.Soundness

/-!
What a server answers for a view that it was sent. It may write a list of one item as the item, put other
entries around the one of the view, and put blanks around the SQL text (`Answer`). The view is read from every
such answer (`view_of_answer`).
-/

namespace SpatialQuery.GeoServer

/-! ## Answers -/

/-- A list as a server writes it: its only item may stand for it. -/
inductive Listed (items : List Json) : Json → Prop
  | all : Listed items (.arr items)
  | only {j : Json} : items = [j] → Listed items j

/-- Another entry of the metadata, with a key of its own and no SQL view. -/
inductive OtherEntry : Json → Prop
  | intro {before after : List (String × Json)} {key : String} : key ≠ Entry.tableKey →
      (∀ f ∈ before ++ after, f.1 ≠ "@key" ∧ f.1 ≠ "virtualTable" ∧ f.2.readable = true) →
      OtherEntry (.obj (before ++ ("@key", .str key) :: after))

/-- The field of the parameters, if there are any. -/
inductive ParameterField (ps : List VirtualParameter) : List (String × Json) → Prop
  | none : ps = [] → ParameterField ps []
  | some {j : Json} : ps ≠ [] → Listed (ps.map VirtualParameter.toJson) j →
      ParameterField ps [("parameter", j)]

inductive TableAnswer (t : VirtualTable) : Json → Prop
  | intro {before after : List Char} {parameters : List (String × Json)} :
      (∀ c ∈ before ++ after, Text.isBlank c = true) → ParameterField t.parameters parameters →
      TableAnswer t (.obj ([("name", .str t.name),
        ("sql", .str (String.ofList (before ++ t.sql.toList ++ after))), ("escapeSql", .bool t.escapeSql)] ++
        Json.fieldOf "keyColumn" .str t.keyColumn ++ [("geometry", t.geometry.toJson)] ++ parameters))

/-- What a server answers for the feature type of a view. -/
inductive Answer (f : FeatureType) : Json → Prop
  | intro {t : VirtualTable} {table entries : Json} {before after : List Json} :
      f.entries = [⟨Entry.tableKey, .some t⟩] → TableAnswer t table → (∀ e ∈ before ++ after, OtherEntry e) →
      Listed (before ++ .obj [("@key", .str Entry.tableKey), ("virtualTable", table)] :: after) entries →
      Answer f (.obj [("featureType", .obj [("name", .str f.name), ("nativeName", .str f.nativeName),
        ("title", .str f.title), ("srs", .str f.srs), ("enabled", .bool f.enabled),
        ("metadata", .obj [("entry", entries)])])])

/-- What is sent is a possible answer. -/
theorem answer_toJson (v : View) : Answer (FeatureType.ofView v) (FeatureType.ofView v).toJson := by
  have hparameters : ParameterField (VirtualTable.ofView v).parameters
      (if (VirtualTable.ofView v).parameters.isEmpty then []
        else [("parameter", .arr ((VirtualTable.ofView v).parameters.map VirtualParameter.toJson))]) := by
    cases hps : (VirtualTable.ofView v).parameters with
    | nil => exact .none rfl
    | cons p ps => exact .some (List.cons_ne_nil p ps) .all
  have htable : TableAnswer (VirtualTable.ofView v) (VirtualTable.ofView v).toJson := by
    have h := @TableAnswer.intro (VirtualTable.ofView v) [] [] _ (List.forall_mem_nil _) hparameters
    rwa [List.nil_append, List.append_nil, String.ofList_toList] at h
  exact @Answer.intro _ _ _ _ [] [] rfl htable (List.forall_mem_nil _) (.only rfl)

/-! ## Reading -/

theorem readableItems_iff {items : List Json} :
    Json.readableItems items = true ↔ ∀ j ∈ items, j.readable = true := by
  induction items with
  | nil => simp [Json.readableItems]
  | cons j items ih => rw [Json.readableItems, Bool.and_eq_true, ih, List.forall_mem_cons]

theorem readableFields_iff {fields : List (String × Json)} :
    Json.readableFields fields = true ↔ ∀ f ∈ fields, f.2.readable = true := by
  induction fields with
  | nil => simp [Json.readableFields]
  | cons f fields ih => rw [Json.readableFields, Bool.and_eq_true, ih, List.forall_mem_cons]

/-- An array is no record whose first field is a text, if its first item is an object. -/
theorem record?_items {names : List String} {items : List Json} {r : Option Json} {rs : List (Option Json)}
    (hobj : ∀ j ∈ items.head?, ∃ fields, j = .obj fields)
    (h : (Json.arr items).record? names = some (r :: rs)) : Json.required Json.asString? r = none := by
  rw [Json.record?] at h
  split at h
  · have hhead := congrArg List.head? (Option.some.inj h)
    cases items with
    | nil =>
      cases names with
      | nil => cases hhead
      | cons n names =>
        cases hhead
        rfl
    | cons j items =>
      obtain ⟨fields, rfl⟩ := hobj j rfl
      cases hhead
      rfl
  · cases h

/-- A list is read as its items, however it is written. -/
theorem asOneOrMany?_listed {α : Type} {f : Json → Option α} {items : List Json} {as : List α} {j : Json}
    (h : Listed items j) (hreadable : ∀ i ∈ items, i.readable = true) (hf : items.mapM f = some as)
    (harr : f (.arr items) = none) : j.asOneOrMany? f = some as := by
  cases h with
  | all =>
    have hread : (Json.arr items).readable = true := readableItems_iff.2 hreadable
    rw [Json.asOneOrMany?, if_pos hread, harr]
    exact hf
  | only hone =>
    subst hone
    obtain ⟨a, ha, rfl⟩ : ∃ a, f j = some a ∧ [a] = as := by
      cases ha : f j with
      | none => simp [ha] at hf
      | some a => exact ⟨a, rfl, by simpa [ha] using hf⟩
    rw [Json.asOneOrMany?, if_pos (hreadable j (List.mem_singleton_self j)), ha]
    rfl

theorem ofJson?_parameter (p : VirtualParameter) : VirtualParameter.ofJson? p.toJson = some p := rfl

theorem ofJson?_parameters (ps : List VirtualParameter) :
    (ps.map VirtualParameter.toJson).mapM VirtualParameter.ofJson? = some ps := by
  induction ps with
  | nil => rfl
  | cons p ps ih => rw [List.map_cons, List.mapM_cons, ofJson?_parameter, ih]; rfl

theorem ofJson?_parameter_items (ps : List VirtualParameter) :
    VirtualParameter.ofJson? (.arr (ps.map VirtualParameter.toJson)) = none := by
  have hobj : ∀ j ∈ (ps.map VirtualParameter.toJson).head?, ∃ fields, j = .obj fields := by
    cases ps with
    | nil => nofun
    | cons p ps =>
      rintro _ ⟨⟩
      exact ⟨_, rfl⟩
  rw [VirtualParameter.ofJson?]
  cases h : (Json.arr (ps.map VirtualParameter.toJson)).record? ["name", "defaultValue", "regexpValidator"] with
  | none => rfl
  | some rs =>
    rw [Option.bind_eq_bind, Option.bind_some]
    split
    · rw [record?_items hobj h]
      rfl
    · rfl

theorem ofJson?_entry_items {items : List Json} (hobj : ∀ j ∈ items.head?, ∃ fields, j = .obj fields) :
    Entry.ofJson? (.arr items) = none := by
  rw [Entry.ofJson?]
  cases h : (Json.arr items).record? ["@key", "virtualTable"] with
  | none => rfl
  | some rs =>
    rw [Option.bind_eq_bind, Option.bind_some]
    split
    · rw [record?_items hobj h]
      rfl
    · rfl

theorem readable_parameter (p : VirtualParameter) : p.toJson.readable = true := rfl

theorem ofJson?_parameterField {ps : List VirtualParameter} {fields : List (String × Json)}
    (h : ParameterField ps fields) :
    (Json.optional (Json.asOneOrMany? VirtualParameter.ofJson?) (List.lookup "parameter" fields)).map
      (·.getD []) = some ps := by
  cases h with
  | none hnil =>
    subst hnil
    rfl
  | some hne hlisted =>
    rename_i j
    have hread : j.asOneOrMany? VirtualParameter.ofJson? = some ps :=
      asOneOrMany?_listed hlisted (List.forall_mem_map.2 fun p _ => readable_parameter p)
        (ofJson?_parameters ps) (ofJson?_parameter_items ps)
    have hnull : j ≠ .null := by
      rintro rfl
      cases hlisted with
      | only hone =>
        cases ps with
        | nil => exact hne rfl
        | cons p ps => cases hone
    change (Json.asOption? (Json.asOneOrMany? VirtualParameter.ofJson?) j).map (·.getD []) = some ps
    rw [Json.asOption?, hread]
    · rfl
    · exact hnull

theorem ofJson?_geometry {g : VirtualGeometry} (h : -0x80000000 ≤ g.srid ∧ g.srid ≤ 0x7FFFFFFF) :
    VirtualGeometry.ofJson? g.toJson = some g := by
  have hsrid : Json.asInt? (-0x80000000) 0x7FFFFFFF (.int g.srid) = some g.srid := by
    rw [Json.asInt?, if_pos (by simpa using h)]
  change (Json.asInt? (-0x80000000) 0x7FFFFFFF (.int g.srid)).bind _ = _
  rw [hsrid]
  rfl

/-- The SQL text may have got blanks around it. -/
def VirtualTable.spaced (t : VirtualTable) (before after : List Char) : VirtualTable :=
  { t with sql := String.ofList (before ++ t.sql.toList ++ after) }

theorem record?_table (t : VirtualTable) (before after : List Char) {parameters : List (String × Json)}
    (h : ParameterField t.parameters parameters) :
    (Json.obj ([("name", .str t.name), ("sql", .str (String.ofList (before ++ t.sql.toList ++ after))),
        ("escapeSql", .bool t.escapeSql)] ++ Json.fieldOf "keyColumn" .str t.keyColumn ++
        [("geometry", t.geometry.toJson)] ++ parameters)).record?
      ["name", "sql", "escapeSql", "keyColumn", "geometry", "parameter"] =
    some [some (.str t.name), some (.str (t.spaced before after).sql), some (.bool t.escapeSql),
      t.keyColumn.map .str, some t.geometry.toJson, List.lookup "parameter" parameters] := by
  cases h <;> cases t.keyColumn <;> rfl

theorem ofJson?_table {t : VirtualTable} (hsrid : -0x80000000 ≤ t.geometry.srid ∧ t.geometry.srid ≤ 0x7FFFFFFF)
    {j : Json} (h : TableAnswer t j) : ∃ before after, (∀ c ∈ before ++ after, Text.isBlank c = true) ∧
      VirtualTable.ofJson? j = some (t.spaced before after) := by
  cases h with
  | intro hblank hparameters =>
    rename_i before after parameters
    refine ⟨before, after, hblank, ?_⟩
    obtain ⟨ps, hps, hget⟩ := Option.map_eq_some_iff.1 (ofJson?_parameterField hparameters)
    have hkey : Json.optional Json.asString? (t.keyColumn.map .str) = some t.keyColumn := by
      cases t.keyColumn <;> rfl
    rw [VirtualTable.ofJson?, record?_table t before after hparameters]
    simp only [Option.bind_eq_bind, Option.bind_some, Json.required, Json.withDefault, Json.asString?,
      Json.asBool?, hkey, ofJson?_geometry hsrid, hps, hget]
    rfl

theorem readable_table {t : VirtualTable} {j : Json} (h : TableAnswer t j) : j.readable = true := by
  cases h with
  | intro _ hparameters =>
    have hkey : ∀ f ∈ Json.fieldOf "keyColumn" Json.str t.keyColumn, f.2.readable = true := by
      cases t.keyColumn with
      | none => exact List.forall_mem_nil _
      | some key => exact List.forall_mem_singleton.2 rfl
    have hfields : ∀ f ∈ ‹List (String × Json)›, f.2.readable = true := by
      cases hparameters with
      | none => exact List.forall_mem_nil _
      | some hne hlisted =>
        refine List.forall_mem_singleton.2 ?_
        have hall : ∀ j ∈ t.parameters.map VirtualParameter.toJson, j.readable = true :=
          List.forall_mem_map.2 fun p _ => readable_parameter p
        cases hlisted with
        | all => exact readableItems_iff.2 hall
        | only hone => exact hall _ (hone ▸ List.mem_singleton_self _)
    refine readableFields_iff.2 ?_
    simp only [List.forall_mem_append, List.forall_mem_cons]
    exact ⟨⟨⟨⟨rfl, rfl, rfl, List.forall_mem_nil _⟩, hkey⟩, rfl, List.forall_mem_nil _⟩, hfields⟩

theorem lookup_eq_none {name : String} {fields : List (String × Json)} (h : ∀ f ∈ fields, f.1 ≠ name) :
    List.lookup name fields = none :=
  List.lookup_eq_none_iff.2 fun f hf => bne_iff_ne.2 (h f hf).symm

theorem filter_eq_nil {name : String} {fields : List (String × Json)} (h : ∀ f ∈ fields, f.1 ≠ name) :
    fields.filter (·.1 == name) = [] :=
  List.filter_eq_nil_iff.2 fun f hf => by simpa using h f hf

theorem record?_other {before after : List (String × Json)} {key : String}
    (h : ∀ f ∈ before ++ after, f.1 ≠ "@key" ∧ f.1 ≠ "virtualTable" ∧ f.2.readable = true) :
    (Json.obj (before ++ ("@key", .str key) :: after)).record? ["@key", "virtualTable"] =
      some [some (.str key), none] := by
  rw [List.forall_mem_append] at h
  have hbefore : ∀ f ∈ before, f.1 ≠ "@key" := fun f hf => (h.1 f hf).1
  have hafter : ∀ f ∈ after, f.1 ≠ "@key" := fun f hf => (h.2 f hf).1
  have htable : ∀ f ∈ before ++ ("@key", .str key) :: after, f.1 ≠ "virtualTable" :=
    List.forall_mem_append.2 ⟨fun f hf => (h.1 f hf).2.1,
      List.forall_mem_cons.2 ⟨(by decide : "@key" ≠ "virtualTable"), fun f hf => (h.2 f hf).2.1⟩⟩
  have hkeys : (before ++ ("@key", Json.str key) :: after).filter (·.1 == "@key") = [("@key", .str key)] := by
    rw [List.filter_append, List.filter_cons_of_pos rfl, filter_eq_nil hbefore, filter_eq_nil hafter]
    rfl
  have hlookup : List.lookup "@key" (before ++ ("@key", Json.str key) :: after) = some (.str key) := by
    rw [List.lookup_append, lookup_eq_none hbefore]
    rfl
  rw [Json.record?, List.map_cons, List.map_cons, List.map_nil, hlookup, lookup_eq_none htable, if_pos]
  rw [List.all_cons, List.all_cons, List.all_nil, hkeys, filter_eq_nil htable]
  rfl

theorem ofJson?_other {j : Json} (h : OtherEntry j) :
    ∃ key, key ≠ Entry.tableKey ∧ Entry.ofJson? j = some ⟨key, none⟩ := by
  cases h with
  | intro hkey hothers =>
    refine ⟨_, hkey, ?_⟩
    rw [Entry.ofJson?, record?_other hothers]
    rfl

theorem readable_other {j : Json} (h : OtherEntry j) : j.readable = true ∧ ∃ fields, j = .obj fields := by
  cases h with
  | intro hkey hothers =>
    rw [List.forall_mem_append] at hothers
    refine ⟨readableFields_iff.2 (List.forall_mem_append.2 ⟨fun f hf => (hothers.1 f hf).2.2,
      List.forall_mem_cons.2 ⟨rfl, fun f hf => (hothers.2 f hf).2.2⟩⟩), _, rfl⟩

theorem ofJson?_others {es : List Json} (h : ∀ e ∈ es, OtherEntry e) :
    ∃ entries, es.mapM Entry.ofJson? = some entries ∧ ∀ e ∈ entries, e.key ≠ Entry.tableKey := by
  induction es with
  | nil => exact ⟨[], rfl, List.forall_mem_nil _⟩
  | cons e es ih =>
    rw [List.forall_mem_cons] at h
    obtain ⟨key, hkey, he⟩ := ofJson?_other h.1
    obtain ⟨entries, hes, hkeys⟩ := ih h.2
    refine ⟨⟨key, none⟩ :: entries, ?_, List.forall_mem_cons.2 ⟨hkey, hkeys⟩⟩
    rw [List.mapM_cons, he, hes]
    rfl

/-- The entry with the SQL of the view is the first one with its key. -/
theorem find?_entry {before after : List Entry} {e : Entry} (hbefore : ∀ e ∈ before, e.key ≠ Entry.tableKey)
    (he : e.key = Entry.tableKey) :
    (before ++ e :: after).find? (·.key == Entry.tableKey) = some e := by
  have hnone : before.find? (·.key == Entry.tableKey) = none :=
    List.find?_eq_none.2 fun e he => by simpa using hbefore e he
  rw [List.find?_append, hnone, Option.none_or, List.find?_cons_of_pos (by simpa using he)]

/-- A feature type is read from an answer, with blanks around the SQL text. -/
theorem ofJson?_answer {f : FeatureType} {t : VirtualTable} (hf : f.entries = [⟨Entry.tableKey, some t⟩])
    (hsrid : -0x80000000 ≤ t.geometry.srid ∧ t.geometry.srid ≤ 0x7FFFFFFF) {j : Json} (h : Answer f j) :
    ∃ f' before after, FeatureType.ofJson? j = some f' ∧ (∀ c ∈ before ++ after, Text.isBlank c = true) ∧
      (f'.entries.find? (·.key == Entry.tableKey)).bind (·.table) = some (t.spaced before after) := by
  cases h with
  | intro hentries htable hothers hlisted =>
    rename_i t' table entries others others'
    obtain rfl : t = t' := by
      rw [hf] at hentries
      cases hentries
      rfl
    obtain ⟨before, after, hblank, ht⟩ := ofJson?_table hsrid htable
    rw [List.forall_mem_append] at hothers
    -- the other entries are read as well, and none of them has the key of the table
    obtain ⟨es, hes, hkeys⟩ := ofJson?_others hothers.1
    obtain ⟨es', hes', -⟩ := ofJson?_others hothers.2
    have hentry : Entry.ofJson? (.obj [("@key", .str Entry.tableKey), ("virtualTable", table)]) =
        some ⟨Entry.tableKey, some (t.spaced before after)⟩ := by
      cases htable with
      | intro _ _ =>
        change (Option.bind (Option.map some (VirtualTable.ofJson? _)) _) = _
        rw [ht]
        rfl
    have hall : (others ++ .obj [("@key", .str Entry.tableKey), ("virtualTable", table)] :: others').mapM
        Entry.ofJson? = some (es ++ ⟨Entry.tableKey, some (t.spaced before after)⟩ :: es') := by
      rw [List.mapM_append, List.mapM_cons, hes, hentry, hes']
      rfl
    have hreadable : ∀ e ∈ others ++ .obj [("@key", .str Entry.tableKey), ("virtualTable", table)] :: others',
        e.readable = true ∧ ∃ fields, e = .obj fields := by
      refine List.forall_mem_append.2 ⟨fun e he => readable_other (hothers.1 e he),
        List.forall_mem_cons.2 ⟨⟨?_, _, rfl⟩, fun e he => readable_other (hothers.2 e he)⟩⟩
      exact readableFields_iff.2 (List.forall_mem_cons.2
        ⟨rfl, List.forall_mem_singleton.2 (readable_table htable)⟩)
    have hread := asOneOrMany?_listed hlisted (fun e he => (hreadable e he).1) hall
      (ofJson?_entry_items fun e he => (hreadable e (List.mem_of_mem_head? he)).2)
    refine ⟨{ f with entries := es ++ ⟨Entry.tableKey, some (t.spaced before after)⟩ :: es' }, before, after,
      ?_, hblank, ?_⟩
    · change (Option.bind (Json.asOneOrMany? Entry.ofJson? entries) _) = _
      rw [hread]
      rfl
    · change Option.bind (List.find? _ (es ++ _ :: es')) _ = _
      rw [find?_entry hkeys rfl]
      rfl

/-! ## Views -/

theorem ofString?_name (t : GeometryType) : GeometryType.ofString? t.name = some t := by
  cases t <;> decide +kernel

theorem toParameter_ofParameter {ps : List ViewParameter}
    (h : ∀ p ∈ ps, ParameterKind.ofValidator p.validator = p.kind) :
    (ps.map VirtualParameter.ofParameter).map VirtualParameter.toParameter = ps := by
  rw [List.map_map]
  have hself : ∀ p ∈ ps, (VirtualParameter.toParameter ∘ VirtualParameter.ofParameter) p = id p := by
    intro p hp
    change ViewParameter.mk p.name (.ofValidator p.validator) p.validator p.default = p
    rw [h p hp]
  rw [List.map_congr_left hself, List.map_id]

/-- The parameters of a view are of the kinds that their regular expressions tell. -/
theorem kinds_of_ok {id : ViewId} {s : Validated} {geometry : Option Geometry.Column}
    {keyColumn : Option String} {v : View} (h : View.ofStatement id s geometry keyColumn = .ok v) :
    ∀ p ∈ v.parameters, ParameterKind.ofValidator p.validator = p.kind := by
  intro p hp
  obtain ⟨hparameters, -⟩ := View.template_ok (View.sql_of_ok h)
  obtain ⟨i, hi⟩ := List.mem_iff_getElem?.1 hp
  obtain ⟨value, rfl⟩ := View.parameter_of_ok hparameters hi
  exact View.ofValidator_validator _

theorem FeatureType.view_of_find {f : FeatureType} {t : VirtualTable} {type : GeometryType}
    (hfind : (f.entries.find? (·.key == Entry.tableKey)).bind (·.table) = some t)
    (htype : GeometryType.ofString? t.geometry.type = some type) (id : ViewId) :
    f.view id = .ok ⟨id, t.sql, t.parameters.map (·.toParameter), ⟨t.geometry.name, type, t.geometry.srid⟩,
      t.keyColumn⟩ := by
  rw [FeatureType.view, hfind]
  dsimp only
  rw [htype]

/-- The view that is read from an answer is the one that was sent, up to blanks around its SQL text. -/
theorem view_of_answer {v : View} (hkinds : ∀ p ∈ v.parameters, ParameterKind.ofValidator p.validator = p.kind)
    (hsrid : -0x80000000 ≤ v.geometry.srid ∧ v.geometry.srid ≤ 0x7FFFFFFF) {j : Json}
    (h : Answer (FeatureType.ofView v) j) :
    ∃ f w, FeatureType.ofJson? j = some f ∧ f.view v.id = .ok w ∧ w.sameDefinition v = true := by
  obtain ⟨f, before, after, hf, hblank, hfind⟩ := ofJson?_answer rfl hsrid h
  have hview : f.view v.id = .ok { v with sql := String.ofList (before ++ v.sql.toList ++ after) } := by
    rw [FeatureType.view_of_find hfind (ofString?_name v.geometry.type)]
    exact congrArg (fun ps => Except.ok (View.mk v.id _ ps v.geometry v.keyColumn)) (toParameter_ofParameter hkinds)
  refine ⟨f, _, hf, hview, ?_⟩
  have htrim := Text.trim_blanks hblank v.sql
  rw [View.sameDefinition]
  dsimp only
  rw [htrim]
  simp only [beq_self_eq_true, Bool.and_self]

end SpatialQuery.GeoServer
