import SpatialQuery.Proofs.Database.Capping
import SpatialQuery.Proofs.Except

/-!
The rows of a result. A statement that is run returns rows with a cell for each column, in the order of the columns,
and geometries in spatial columns only (`runStatement_inOrder`).
-/

namespace SpatialQuery.Database

/-! ## Sessions that return -/

section Sessions

variable {ε α β : Type} {a : α} {b : β}

/-- A session that ends with a value. -/
def Session.Returns (x : Session ε α) (a : α) : Prop :=
  ∃ log log', x.run.run log = (.ok a, log')

theorem returns_bind {x : Session ε α} {f : α → Session ε β} (h : Session.Returns (x >>= f) b) :
    ∃ a, x.Returns a ∧ (f a).Returns b := by
  obtain ⟨log, log', h⟩ := h
  rcases hx : x.run.run log with ⟨_ | a, log₁⟩
  · rw [run_bind_error hx] at h
    cases h
  · rw [run_bind_ok hx] at h
    exact ⟨a, ⟨log, log₁, hx⟩, log₁, log', h⟩

theorem returns_lift {x : Except ε α} (h : Session.Returns (liftM x : Session ε α) a) : x = .ok a := by
  obtain ⟨log, log', h⟩ := h
  rw [run_lift rfl] at h
  exact (Prod.mk.inj h).1

theorem returns_answer {describe : Refusal → ε} {x : Except Refusal α}
    (h : (Session.answer describe x).Returns a) : x = .ok a := by
  obtain ⟨log, log', h⟩ := h
  cases x with
  | error r => cases h
  | ok c =>
    cases h
    rfl

theorem returns_prepare {s : Server} {describe : Refusal → ε} {sql : String} {prepared : Prepared}
    (h : (Session.prepare s describe sql).Returns prepared) : s.prepare sql = .ok prepared := by
  obtain ⟨-, -, h⟩ := returns_bind h
  exact returns_answer h

theorem collectCapped_mem {convert : β → Except ε α} {n : Nat} {items : List (Except ε β)} {as : List α}
    {more : Bool} (h : collectCapped convert n items = .ok (as, more)) :
    ∀ a ∈ as, ∃ b, .ok b ∈ items ∧ convert b = .ok a := by
  intro a ha
  have hcapped := collectCapped_capped convert n items
  rw [h, Capped, converted_lift] at hcapped
  have hmem : (.ok a : Except ε α) ∈ as.map .ok := List.mem_map_of_mem ha
  rw [← hcapped.1] at hmem
  obtain ⟨item, hitem, hconvert⟩ := List.mem_map.1 hmem
  cases item with
  | error e => cases hconvert
  | ok b => exact ⟨b, List.mem_of_mem_take (List.mem_of_mem_take hitem), hconvert⟩

theorem mem_items {describe : Refusal → ε} {stream : RowStream} {values : List (Option Bytes)}
    (h : .ok values ∈ stream.items describe) : values ∈ stream.rows := by
  unfold RowStream.items at h
  rcases List.mem_append.1 h with h | h
  · simpa using h
  · cases hr : stream.refusal <;> simp [hr] at h

end Sessions

/-! ## Cells of rows -/

theorem readJson?_ne_geometry (bs : Bytes) (g : GeometryCell) : Cell.readJson? bs ≠ some (.geometry g) := by
  intro h
  obtain ⟨j, -, hj⟩ := Option.map_eq_some_iff.1 h
  cases hj

theorem isSpatial_of_read? {t : SqlType} {bs : Bytes} {g : GeometryCell} (h : Cell.read? t bs = some (.geometry g)) :
    t.isSpatial = true := by
  cases t with
  | other n =>
    cases hspatial : (SqlType.other n).isSpatial with
    | true => rfl
    | false => simp [Cell.read?, hspatial] at h
  | bool =>
    change Cell.readBool? bs = _ at h
    unfold Cell.readBool? at h
    split at h <;> cases h
  | _ =>
    simp [Cell.read?, Cell.readInt?, Cell.readFloat4?, Cell.readFloat8?, Cell.readDate?,
      readJson?_ne_geometry] at h

theorem isSpatial_of_readCell {index : Nat} {name : String} {t : SqlType} {value : Option Bytes} {g : GeometryCell}
    (h : readCell index name t value = .ok (.geometry g)) : t.isSpatial = true := by
  cases value with
  | none => cases h
  | some bs =>
    cases hread : Cell.read? t bs with
    | none => simp [readCell, hread] at h
    | some c =>
      simp only [readCell, hread, Except.ok.injEq] at h
      exact isSpatial_of_read? (h ▸ hread)

/-- A row has a cell for each column, and geometries in spatial columns only. -/
theorem readCells_ok {index : Nat} {columns : List (String × SqlType)} {values : List (Option Bytes)} {row : Row}
    (h : readCells index columns values = .ok row) (hlength : values.length = columns.length) :
    row.map Prod.fst = columns.map Prod.fst ∧ ∀ (k : Nat) (name : String) (g : GeometryCell),
      row[k]? = some (name, Cell.geometry g) → ∃ t : SqlType, columns[k]? = some (name, t) ∧ t.isSpatial = true := by
  induction columns generalizing index values row with
  | nil =>
    unfold readCells at h
    cases h
    simp
  | cons column columns ih =>
    obtain ⟨name, t⟩ := column
    match values, hlength with
    | value :: values, hlength =>
      rw [readCells] at h
      cases hcell : readCell index name t value with
      | error e => simp [hcell] at h
      | ok c =>
        rw [hcell] at h
        obtain ⟨rest, hrest, rfl⟩ := map_ok_iff.1 h
        obtain ⟨hnames, hspatial⟩ := ih hrest (Nat.succ.inj hlength)
        refine ⟨by simp [hnames], fun k n g hk => ?_⟩
        cases k with
        | zero =>
          obtain ⟨rfl, rfl⟩ := Prod.mk.inj (Option.some.inj hk)
          exact ⟨t, rfl, isSpatial_of_readCell hcell⟩
        | succ k => exact hspatial k n g hk

/-! ## Results of statements -/

/-- The rows list the names of the columns in their order. -/
def ResultSet.InOrder (r : ResultSet) : Prop :=
  ∀ row ∈ r.rows, row.map Prod.fst = r.columns.map Prod.fst

/-- A database whose rows have a value for each column. -/
def Server.SendsWholeRows (s : Server) : Prop :=
  ∀ sql prepared values stream, s.prepare sql = .ok prepared → s.run sql values = some (.ok stream) →
    ∀ row ∈ stream.rows, row.length = prepared.columns.length

theorem runStatement_rows {s : Server} {statement : Statement} {o : Options} {r : ResultSet}
    (hs : s.SendsWholeRows) (h : (runStatement s statement o).Returns r) :
    ∃ columns : List (String × SqlType), r.columns = columns.map (fun (name, t) => (name, t.typeName)) ∧
      ∀ row ∈ r.rows, ∃ values : List (Option Bytes), values.length = columns.length ∧
        readCells 0 columns values = .ok row := by
  obtain ⟨_, -, h⟩ := returns_bind h
  obtain ⟨_, -, h⟩ := returns_bind h
  obtain ⟨prepared, hprepared, h⟩ := returns_bind h
  obtain ⟨values, -, h⟩ := returns_bind h
  obtain ⟨_, -, h⟩ := returns_bind h
  cases hrun : s.run statement.sql values with
  | none =>
    simp only [hrun] at h
    obtain ⟨log, log', h⟩ := h
    cases h
  | some answer =>
    simp only [hrun] at h
    obtain ⟨stream, hstream, h⟩ := returns_bind h
    obtain ⟨⟨rows, truncated⟩, hrows, h⟩ := returns_bind h
    obtain ⟨_, -, log, log', h⟩ := returns_bind h
    cases h
    -- A row collected was read from one the server sent, and that has a value for each column prepared.
    refine ⟨prepared.columns, rfl, fun row hrow => ?_⟩
    obtain ⟨bytes, hbytes, hread⟩ := collectCapped_mem (returns_lift hrows) row hrow
    rw [returns_answer hstream] at hrun
    exact ⟨bytes, hs _ _ _ _ (returns_prepare hprepared) hrun _ (mem_items hbytes), hread⟩

theorem runStatement_inOrder {s : Server} {statement : Statement} {o : Options} {r : ResultSet}
    (hs : s.SendsWholeRows) (h : (runStatement s statement o).Returns r) : r.InOrder := by
  obtain ⟨columns, hcolumns, hrows⟩ := runStatement_rows hs h
  intro row hrow
  obtain ⟨values, hlength, hread⟩ := hrows row hrow
  rw [(readCells_ok hread hlength).1, hcolumns, List.map_map]
  rfl

/-- Only spatial columns have cells with geometries. -/
theorem runStatement_spatial {s : Server} {statement : Statement} {o : Options} {r : ResultSet}
    (hs : s.SendsWholeRows) (h : (runStatement s statement o).Returns r) {row : Row} (hrow : row ∈ r.rows)
    {k : Nat} {name : String} {g : GeometryCell} (hk : row[k]? = some (name, .geometry g)) :
    ∃ t : SqlType, r.columns[k]? = some (name, t.typeName) ∧ t.isSpatial = true := by
  obtain ⟨columns, hcolumns, hrows⟩ := runStatement_rows hs h
  obtain ⟨values, hlength, hread⟩ := hrows row hrow
  obtain ⟨t, ht, hspatial⟩ := (readCells_ok hread hlength).2 k name g hk
  refine ⟨t, ?_, hspatial⟩
  rw [hcolumns, List.getElem?_map, ht]
  rfl

end SpatialQuery.Database
