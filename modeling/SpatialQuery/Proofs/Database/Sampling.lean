import SpatialQuery.Proofs.Database.Rows

/-!
The geometry of a result, as it is inferred from the first row. The column is chosen by its type, its cell is looked
up by its name: an earlier column of the same name hides the cell (`inferGeometry_iff`).
-/

namespace SpatialQuery.Database

open SpatialQuery.Geometry (InferenceError Column)

/-! ## Cells of a row -/

theorem Row.get?_eq (row : Row) (name : String) :
    row.get? name = row[(row.map Prod.fst).idxOf name]?.map Prod.snd := by
  induction row with
  | nil => rfl
  | cons field row ih =>
    obtain ⟨n, cell⟩ := field
    by_cases h : n = name
    · simp [Row.get?, h]
    · rw [List.map_cons, List.idxOf_cons, beq_eq_false_iff_ne.2 h, cond_false, List.getElem?_cons_succ, ← ih,
        Row.get?, List.lookup_cons, beq_eq_false_iff_ne.2 (Ne.symm h)]
      rfl

namespace ResultSet

variable {r : ResultSet} {name : String} {k : Nat}

/-- The cell of the first row at a position. -/
def firstCell? (r : ResultSet) (k : Nat) : Option Cell :=
  r.rows.head?.bind fun row => row[k]?.map Prod.snd

/-- The position of the first column of a name. -/
def position (r : ResultSet) (name : String) : Nat :=
  (r.columns.map Prod.fst).idxOf name

theorem position_le {column : String × String} (h : r.columns[k]? = some column) : r.position column.1 ≤ k := by
  obtain ⟨hk, rfl⟩ := List.getElem?_eq_some_iff.1 h
  have hk' : k < (r.columns.map Prod.fst).length := by rwa [List.length_map]
  have hname : (r.columns.map Prod.fst)[k] = r.columns[k].1 := List.getElem_map ..
  refine Nat.le_of_not_lt fun hlt => ?_
  have hne := List.not_of_lt_findIdx hlt
  simp [hname] at hne

/-- A cell that is looked up by a name is the one of the first column of the name. -/
theorem get?_eq_firstCell? (h : r.InOrder) (name : String) :
    r.rows.head?.bind (Row.get? · name) = r.firstCell? (r.position name) := by
  cases hrow : r.rows.head? with
  | none => rw [firstCell?, hrow, Option.bind_none, Option.bind_none]
  | some row =>
    have hnames := h row (List.mem_of_mem_head? hrow)
    rw [firstCell?, hrow, Option.bind_some, Option.bind_some, Row.get?_eq, hnames, position]

/-! ## Spatial columns -/

/-- A column of geometries, by the name of its type. -/
def IsSpatial (column : String × String) : Prop :=
  column.2 = "geometry" ∨ column.2 = "geography"

theorem isSpatial_ofName {column : String × String} :
    (SqlType.ofName column.2).isSpatial = true ↔ IsSpatial column := by
  rw [SqlType.isSpatial, SqlType.typeName_ofName, Bool.or_eq_true, beq_iff_eq, beq_iff_eq, IsSpatial]

/-- The only spatial column of a result, by its position and its name. -/
structure OnlySpatial (r : ResultSet) (k : Nat) (name : String) : Prop where
  spatial : ∃ typeName, r.columns[k]? = some (name, typeName) ∧ IsSpatial (name, typeName)
  only : ∀ j column, r.columns[j]? = some column → IsSpatial column → j = k

theorem filter_eq_singleton {α : Type} {p : α → Bool} {l : List α} {a : α} (ha : l[k]? = some a) (hp : p a = true)
    (honly : ∀ j b, l[j]? = some b → p b = true → j = k) : l.filter p = [a] := by
  induction l generalizing k with
  | nil => cases ha
  | cons b l ih =>
    cases k with
    | zero =>
      obtain rfl : b = a := Option.some.inj ha
      have hnil : l.filter p = [] := by
        rw [List.filter_eq_nil_iff]
        intro c hc hpc
        obtain ⟨j, hj⟩ := List.mem_iff_getElem?.1 hc
        exact absurd (honly (j + 1) c hj hpc) (Nat.succ_ne_zero j)
      rw [List.filter_cons_of_pos hp, hnil]
    | succ k =>
      have hb : ¬ p b = true := fun hpb => absurd (honly 0 b rfl hpb) (Nat.succ_ne_zero k).symm
      rw [List.filter_cons_of_neg hb]
      exact ih ha fun j c hc hpc => Nat.succ.inj (honly (j + 1) c hc hpc)

theorem onlySpatial_second {column : String × String} (hcolumns : r.columns = [column, (name, "geometry")])
    (h : ¬ IsSpatial column) : r.OnlySpatial 1 name := by
  refine ⟨⟨"geometry", by rw [hcolumns]; rfl, .inl rfl⟩, fun j c hj hspatial => ?_⟩
  rw [hcolumns] at hj
  match j, hj with
  | 0, hj =>
    obtain rfl := Option.some.inj hj
    exact absurd hspatial h
  | 1, _ => rfl

theorem OnlySpatial.spatialColumns_eq (h : r.OnlySpatial k name) : r.spatialColumns = [name] := by
  obtain ⟨typeName, hk, hspatial⟩ := h.spatial
  have hfilter := filter_eq_singleton (p := fun c : String × String => (SqlType.ofName c.2).isSpatial) hk
    (isSpatial_ofName.2 hspatial) fun j column hj hc => h.only j column hj (isSpatial_ofName.1 hc)
  rw [spatialColumns, hfilter]
  rfl

/-! ## Answers -/

/-- What a cell tells of the geometry in the column of a name. -/
def told (name : String) : Option Cell → Except InferenceError Column
  | some (.geometry ⟨some type, some srid, _⟩) => .ok ⟨name, type, srid⟩
  | some (.geometry _) => .error (.unknownSrid name)
  | _ => .error (.noSample name)

/-- An earlier column of the same name is looked at, and it does not tell the same. -/
def IsHidden (r : ResultSet) (k : Nat) (name : String) : Prop :=
  r.position name < k ∧ told name (r.firstCell? (r.position name)) ≠ told name (r.firstCell? k)

theorem inferGeometry_eq (h : r.InOrder) (hint : Option String) :
    r.inferGeometry hint =
      (sampledColumn r.spatialColumns hint).bind fun name => told name (r.firstCell? (r.position name)) := by
  unfold inferGeometry
  cases sampledColumn r.spatialColumns hint with
  | error e => rfl
  | ok name =>
    simp only [get?_eq_firstCell? h]
    rfl

theorem sampledColumn_only (name : String) (hint : Option String) : sampledColumn [name] hint = .ok name := by
  have hfilter : hint.filter [name].contains = some name ∨ hint.filter [name].contains = none := by
    cases hint with
    | none => exact .inr rfl
    | some n =>
      by_cases h : n = name
      · exact .inl (by simp [Option.filter, h])
      · exact .inr (by simp [Option.filter, h])
  unfold sampledColumn
  rcases hfilter with h | h <;> rw [h]

theorem sampledColumn_unhinted {names : List String} {hint : Option String} (h : ∀ n ∈ hint, n ∉ names)
    (hseveral : 2 ≤ names.length) : sampledColumn names hint = .error (.ambiguous names) := by
  have hfilter : hint.filter names.contains = none := by
    cases hint with
    | none => rfl
    | some n => simpa [Option.filter] using h n rfl
  unfold sampledColumn
  rw [hfilter]
  match names, hseveral with
  | _ :: _ :: _, _ => rfl

/-- What is inferred from the first row. Of an only spatial column its own cell is looked at, unless the cell is
hidden. -/
theorem inferGeometry_iff (h : r.InOrder) (hint : Option String) :
    (∀ k name, r.OnlySpatial k name →
      (r.inferGeometry hint = told name (r.firstCell? k) ↔ ¬ r.IsHidden k name)) ∧
    (2 ≤ r.spatialColumns.length → (∀ n ∈ hint, n ∉ r.spatialColumns) →
      r.inferGeometry hint = .error (.ambiguous r.spatialColumns)) ∧
    (r.spatialColumns = [] → r.inferGeometry hint = .error .noGeometry) := by
  rw [inferGeometry_eq h]
  refine ⟨fun k name honly => ?_, fun hseveral hhint => ?_, fun hnil => ?_⟩
  · rw [honly.spatialColumns_eq, sampledColumn_only]
    change told name (r.firstCell? (r.position name)) = told name (r.firstCell? k) ↔ _
    obtain ⟨typeName, hk, -⟩ := honly.spatial
    rw [IsHidden, not_and, Classical.not_not]
    refine ⟨fun htold _ => htold, fun htold => ?_⟩
    obtain hlt | heq := Nat.lt_or_eq_of_le (position_le hk)
    · exact htold hlt
    · exact congrArg (fun j => told name (r.firstCell? j)) heq
  · rw [sampledColumn_unhinted hhint hseveral]
    rfl
  · rw [hnil]
    cases hint <;> rfl

/-- A point in a column of its own name, whatever is hinted at. -/
theorem inferGeometry_point : ∃ r : ResultSet, r.columns = [("id", "int4"), ("geom", "geometry")] ∧
    r.InOrder ∧ r.OnlySpatial 1 "geom" ∧ r.inferGeometry (some "id") = .ok ⟨"geom", .point, 4326⟩ := by
  let r : ResultSet := {
    columns := [("id", "int4"), ("geom", "geometry")]
    rows := [[("id", .int 1), ("geom", .geometry ⟨some .point, some 4326, []⟩)]]
    truncated := false }
  have horder : r.InOrder := by simp [InOrder, r]
  have honly : r.OnlySpatial 1 "geom" := onlySpatial_second rfl (by simp [IsSpatial])
  have hshown : ¬ r.IsHidden 1 "geom" := fun h => absurd h.1 (by decide)
  exact ⟨r, rfl, horder, honly, ((inferGeometry_iff horder (some "id")).1 1 "geom" honly).2 hshown⟩

/-- A point behind a column of the same name is not found. -/
theorem inferGeometry_hidden : ∃ r : ResultSet, r.columns = [("geom", "text"), ("geom", "geometry")] ∧
    r.InOrder ∧ r.OnlySpatial 1 "geom" ∧ told "geom" (r.firstCell? 1) = .ok ⟨"geom", .point, 4326⟩ ∧
    r.inferGeometry none = .error (.noSample "geom") := by
  let r : ResultSet := {
    columns := [("geom", "text"), ("geom", "geometry")]
    rows := [[("geom", .text "x"), ("geom", .geometry ⟨some .point, some 4326, []⟩)]]
    truncated := false }
  exact ⟨r, rfl, by simp [InOrder, r], onlySpatial_second rfl (by simp [IsSpatial]), rfl, rfl⟩

/-! ## Results of runs -/

theorem told_eq_noSample_iff {cell : Option Cell} :
    told name cell = .error (.noSample name) ↔ ∀ g, cell ≠ some (.geometry g) := by
  rcases cell with _ | (_ | _ | _ | _ | _ | _ | _ | _ | _ | _ | _ | ⟨⟨_ | _, _ | _, _⟩⟩ | _ | _) <;> simp [told]

theorem firstCell?_spatial {s : Server} {statement : Statement} {o : Options} (hs : s.SendsWholeRows)
    (h : (runStatement s statement o).Returns r) {g : GeometryCell} (hk : r.firstCell? k = some (.geometry g)) :
    ∃ column, r.columns[k]? = some column ∧ IsSpatial column := by
  obtain ⟨row, hrow, hcell⟩ := Option.bind_eq_some_iff.1 hk
  obtain ⟨⟨n, c⟩, hfield, rfl⟩ := Option.map_eq_some_iff.1 hcell
  obtain ⟨t, ht, hspatial⟩ := runStatement_spatial hs h (List.mem_of_mem_head? hrow) hfield
  refine ⟨(n, t.typeName), ht, ?_⟩
  simpa [SqlType.isSpatial, IsSpatial] using hspatial

/-- In the result of a run, a geometry is hidden by any earlier column of its name. -/
theorem isHidden_iff_of_runStatement {s : Server} {statement : Statement} {o : Options} (hs : s.SendsWholeRows)
    (h : (runStatement s statement o).Returns r) (honly : r.OnlySpatial k name) :
    r.IsHidden k name ↔ r.position name < k ∧ ∃ g, r.firstCell? k = some (.geometry g) := by
  rw [IsHidden]
  refine and_congr_right fun hlt => ?_
  have hearlier : told name (r.firstCell? (r.position name)) = .error (.noSample name) := by
    rw [told_eq_noSample_iff]
    intro g hg
    -- a geometry at the earlier position would be in a second spatial column
    obtain ⟨column, hcolumn, hspatial⟩ := firstCell?_spatial hs h hg
    exact Nat.ne_of_lt hlt (honly.only _ column hcolumn hspatial)
  rw [hearlier, ne_comm, ne_eq, told_eq_noSample_iff, not_forall]
  simp only [ne_eq, Classical.not_not]

end ResultSet

end SpatialQuery.Database
