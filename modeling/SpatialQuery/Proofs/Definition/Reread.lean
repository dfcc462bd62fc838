import SpatialQuery.Proofs.Definition.Stored

/-!
What is read of a definition that was stored (`ofJson?_reread`). Numbers that are not whole may change, and nothing is
read if a value of a condition is nested too deeply for a document (`Definition.Fits`). The whole numbers of a
definition that was read of a text have their types (`typed_ofJson?`).
-/

namespace SpatialQuery.Definition

open Json

/-! ## Values of conditions -/

mutual

/-- How deep lists and geometries are nested in the value. -/
def Comparand.nesting : Comparand → Nat
  | .list items => Comparand.listNesting items + 1
  | .geometry _ => 1
  | _ => 0

def Comparand.listNesting : List Comparand → Nat
  | [] => 0
  | c :: cs => max c.nesting (Comparand.listNesting cs)

end

mutual

/-- The whole numbers of the value have their types. -/
def Comparand.Typed : Comparand → Prop
  | .int i => Value.minInt ≤ i ∧ i ≤ Value.maxInt
  | .list items => Comparand.ListTyped items
  | .geometry g => -0x80000000 ≤ g.srid ∧ g.srid ≤ 0x7FFFFFFF
  | _ => True

def Comparand.ListTyped : List Comparand → Prop
  | [] => True
  | c :: cs => c.Typed ∧ Comparand.ListTyped cs

end

def GeometryText.reread (g : GeometryText) : GeometryText :=
  { g with distance := g.distance.bind rereadFloat? }

mutual

/-- What is read of the value when it was written. -/
def Comparand.reread : Comparand → Comparand
  | .float x => ((rereadFloat? x).map Comparand.float).getD .null
  | .list items => .list (Comparand.rereadList items)
  | .geometry g => .geometry g.reread
  | c => c

def Comparand.rereadList : List Comparand → List Comparand
  | [] => []
  | c :: cs => c.reread :: Comparand.rereadList cs

end

mutual

theorem Comparand.nesting_reread : (c : Comparand) → c.reread.nesting = c.nesting
  | .float x => by
    rw [reread]
    cases rereadFloat? x <;> rfl
  | .list items => congrArg (· + 1) (listNesting_reread items)
  | .geometry _ | .null | .bool _ | .int _ | .text _ => rfl

theorem Comparand.listNesting_reread : (cs : List Comparand) → listNesting (rereadList cs) = listNesting cs
  | [] => rfl
  | c :: cs => by rw [rereadList, listNesting, listNesting, nesting_reread c, listNesting_reread cs]

end

mutual

theorem Comparand.typed_reread : (c : Comparand) → c.Typed → c.reread.Typed
  | .float x, _ => by
    rw [reread]
    cases rereadFloat? x <;> exact trivial
  | .list items, h => listTyped_reread items h
  | .geometry _, h | .int _, h => h
  | .null, _ | .bool _, _ | .text _, _ => trivial

theorem Comparand.listTyped_reread : (cs : List Comparand) → ListTyped cs → ListTyped (rereadList cs)
  | [], _ => trivial
  | c :: cs, h => ⟨typed_reread c h.1, listTyped_reread cs h.2⟩

end

section Reading

variable {depth : Nat}

theorem reread_int {i : Int} (h : Value.minInt ≤ i ∧ i ≤ Value.maxInt) : Json.reread depth (.int i) = .int i :=
  Numeral.toJson_ofInt h.1 (Int.le_trans h.2 (by decide))

theorem GeometryText.reread_toJson {g : GeometryText} (hdepth : depth < maxDepth)
    (h : -0x80000000 ≤ g.srid ∧ g.srid ≤ 0x7FFFFFFF) : Json.reread depth g.toJson =
      .obj (present (g.fields (g.distance.map fun x => Json.reread (depth + 1) (.float x)))) := by
  have hsrid : Json.reread (depth + 1) (.int g.srid) = .int g.srid :=
    Numeral.toJson_ofInt (Int.le_trans (by decide) h.1) (Int.le_trans h.2 (by decide))
  rw [g.toJson_eq, reread_present hdepth]
  simp only [GeometryText.fields, List.map_cons, List.map_nil, Prod.map_apply, Option.map_some, Option.map_map, hsrid]
  rfl

theorem GeometryText.ofJson?_reread {g : GeometryText} (hdepth : depth < maxDepth)
    (h : -0x80000000 ≤ g.srid ∧ g.srid ≤ 0x7FFFFFFF) :
    ofJson? (Json.reread depth g.toJson) = some g.reread := by
  have hdistance : optional asFloat? (g.distance.map fun x => Json.reread (depth + 1) (.float x)) =
      some (g.distance.bind rereadFloat?) := by
    cases g.distance with
    | none => rfl
    | some x =>
      rw [Option.map_some, Option.bind_some, reread_float]
      cases rereadFloat? x <;> rfl
  rw [reread_toJson hdepth h, ofJson?_fields h, hdistance]
  rfl

/-- A value that can be read in full, unless it is nested too deeply. -/
theorem readable_geometry {g : GeometryText} (hdepth : depth < maxDepth)
    (h : -0x80000000 ≤ g.srid ∧ g.srid ≤ 0x7FFFFFFF) : (Json.reread depth g.toJson).readable = true := by
  rw [GeometryText.reread_toJson hdepth h]
  cases g.distance with
  | none => rfl
  | some x =>
    rw [Option.map_some, reread_float]
    cases rereadFloat? x <;> rfl

mutual

theorem readable_reread : (c : Comparand) → ∀ {depth : Nat}, c.Typed → depth + c.nesting ≤ maxDepth →
    (Json.reread depth c.toJson).readable = true
  | .null, _, _, _ | .bool _, _, _, _ | .text _, _, _, _ => rfl
  | .int i, _, h, _ => by
    rw [Comparand.toJson, reread_int h]
    rfl
  | .float x, _, _, _ => by
    rw [Comparand.toJson, reread_float]
    cases rereadFloat? x <;> rfl
  | .list items, depth, h, hfits => by
    rw [Comparand.nesting] at hfits
    rw [Comparand.toJson, Json.reread, unlessTooDeep, if_pos (by omega)]
    exact readableItems_reread items h (by omega)
  | .geometry g, _, h, hfits => readable_geometry hfits h

theorem readableItems_reread : (cs : List Comparand) → ∀ {depth : Nat}, Comparand.ListTyped cs →
    depth + Comparand.listNesting cs ≤ maxDepth →
      readableItems (rereadItems depth (Comparand.listToJson cs)) = true
  | [], _, _, _ => rfl
  | c :: cs, _, h, hfits => by
    rw [Comparand.listNesting] at hfits
    rw [Comparand.listToJson, rereadItems, readableItems, readable_reread c h.1 (by omega),
      readableItems_reread cs h.2 (by omega), Bool.and_self]

end

mutual

/-- A value is read unless it is nested too deeply. -/
theorem ofReadable?_reread : (c : Comparand) → ∀ {depth : Nat}, depth ≤ maxDepth → c.Typed →
    Comparand.ofReadable? (Json.reread depth c.toJson) = if depth + c.nesting ≤ maxDepth then some c.reread else none
  | .null, _, hdepth, _ | .bool _, _, hdepth, _ | .text _, _, hdepth, _ => (if_pos hdepth).symm
  | .int i, _, hdepth, h => by
    have hrange : Value.minInt ≤ i ∧ i ≤ Value.maxInt := h
    rw [Comparand.toJson, reread_int hrange, Comparand.ofReadable?, if_pos (by simpa using hrange)]
    exact (if_pos hdepth).symm
  | .float x, depth, hdepth, _ => by
    have hfits : depth + (Comparand.float x).nesting ≤ maxDepth := hdepth
    rw [Comparand.toJson, reread_float, Comparand.reread, if_pos hfits]
    cases rereadFloat? x <;> rfl
  | .list items, depth, hdepth, h => by
    -- the list takes one level, which its items have less
    rw [Comparand.toJson, Json.reread, unlessTooDeep, Comparand.nesting, Comparand.reread]
    by_cases hdeep : depth + 1 ≤ maxDepth
    · rw [if_pos hdeep, Comparand.ofReadable?, listOfReadable?_reread items hdeep h, Nat.add_right_comm, Nat.add_assoc]
      split <;> rfl
    · rw [if_neg hdeep, if_neg (by omega)]
      rfl
  | .geometry g, depth, hdepth, h => by
    have hnesting : (Comparand.geometry g).nesting = 1 := rfl
    rw [Comparand.toJson, hnesting]
    by_cases hdeep : depth + 1 ≤ maxDepth
    · have hread := GeometryText.ofJson?_reread hdeep h
      rw [GeometryText.reread_toJson hdeep h] at hread ⊢
      rw [Comparand.ofReadable?, hread, if_pos hdeep]
      rfl
    · rw [g.toJson_eq, Json.reread, unlessTooDeep, if_neg hdeep, if_neg hdeep]
      rfl

theorem listOfReadable?_reread : (cs : List Comparand) → ∀ {depth : Nat}, depth ≤ maxDepth →
    Comparand.ListTyped cs → Comparand.listOfReadable? (rereadItems depth (Comparand.listToJson cs)) =
      if depth + Comparand.listNesting cs ≤ maxDepth then some (Comparand.rereadList cs) else none
  | [], _, hdepth, _ => (if_pos hdepth).symm
  | c :: cs, depth, hdepth, h => by
    rw [Comparand.listToJson, rereadItems, Comparand.listOfReadable?, ofReadable?_reread c hdepth h.1,
      listOfReadable?_reread cs hdepth h.2, Comparand.listNesting]
    by_cases hc : depth + c.nesting ≤ maxDepth
    · by_cases hcs : depth + Comparand.listNesting cs ≤ maxDepth
      · have hall : depth + max c.nesting (Comparand.listNesting cs) ≤ maxDepth := by omega
        rw [if_pos hc, if_pos hcs, if_pos hall]
        rfl
      · have hall : ¬depth + max c.nesting (Comparand.listNesting cs) ≤ maxDepth := by omega
        rw [if_pos hc, if_neg hcs, if_neg hall]
    · have hall : ¬depth + max c.nesting (Comparand.listNesting cs) ≤ maxDepth := by omega
      rw [if_neg hc, if_neg hall]

end

theorem Comparand.ofJson?_reread {c : Comparand} (hdepth : depth ≤ maxDepth) (h : c.Typed) :
    Comparand.ofJson? (Json.reread depth c.toJson) = if depth + c.nesting ≤ maxDepth then some c.reread else none := by
  have hread := ofReadable?_reread c hdepth h
  rw [Comparand.ofJson?]
  by_cases hfits : depth + c.nesting ≤ maxDepth
  · rw [if_pos (readable_reread c h hfits), hread]
  · rw [hread, if_neg hfits, ite_self]

end Reading

/-! ## Whole definitions -/

def Condition.reread (c : Condition) : Condition :=
  { c with value := c.value.reread }

theorem Condition.ofJson?_reread {depth : Nat} {c : Condition} (hdepth : depth < maxDepth) (h : c.value.Typed) :
    Condition.ofJson? (Json.reread depth c.toJson) =
      if depth + 1 + c.value.nesting ≤ maxDepth then some c.reread else none := by
  have hfields : (c.fields c.value.toJson).map (Prod.map id (Option.map (Json.reread (depth + 1)))) =
      c.fields (Json.reread (depth + 1) c.value.toJson) := rfl
  rw [c.toJson_eq, reread_present hdepth, hfields, c.ofJson?_fields, Comparand.ofJson?_reread hdepth h]
  split <;> rfl

/-- The values of the conditions are not nested too deeply for a document. Each of them has a condition and the list of
conditions around it, besides the definition. -/
def Fits (d : Definition) : Prop :=
  ∀ c ∈ d.conditions, depthInDocument + 3 + c.value.nesting ≤ maxDepth

instance (d : Definition) : Decidable d.Fits :=
  inferInstanceAs (Decidable (∀ c ∈ d.conditions, _))

/-- The whole numbers of the definition have their types. -/
structure Typed (d : Definition) : Prop where
  conditions : ∀ c ∈ d.conditions, c.value.Typed
  limit : ∀ n ∈ d.limit, n ≤ Text.maxNat64
  offset : ∀ n ∈ d.offset, n ≤ Text.maxNat64

/-- What is read of the definition when it was written. -/
def reread (d : Definition) : Definition :=
  { d with conditions := d.conditions.map Condition.reread }

theorem fits_reread {d : Definition} (h : d.Fits) : d.reread.Fits := by
  refine List.forall_mem_map.2 fun c hc => ?_
  rw [Condition.reread, Comparand.nesting_reread]
  exact h c hc

theorem typed_reread {d : Definition} (h : d.Typed) : d.reread.Typed :=
  ⟨List.forall_mem_map.2 fun c hc => Comparand.typed_reread c.value (h.conditions c hc), h.limit, h.offset⟩

/-- With `depth` containers around the definition, the values of its conditions are not nested too deeply. -/
def FitsAt (depth : Nat) (d : Definition) : Prop :=
  ∀ c ∈ d.conditions, depth + 3 + c.value.nesting ≤ maxDepth

instance (depth : Nat) (d : Definition) : Decidable (d.FitsAt depth) :=
  inferInstanceAs (Decidable (∀ c ∈ d.conditions, _))

theorem reread_fields {d : Definition} {depth : Nat} (hdepth : depth + 1 < maxDepth) (h : d.Typed) (conditions : Json) :
    (d.fields conditions).map (Prod.map id (Option.map (Json.reread depth))) =
      d.fields (Json.reread depth conditions) := by
  have hcount : ∀ {v : Option Nat}, (∀ n ∈ v, n ≤ Text.maxNat64) →
      (v.map Json.ofNat).map (Json.reread depth) = v.map Json.ofNat := by
    intro v hv
    cases v with
    | none => rfl
    | some n => exact congrArg some (reread_writable _ (encodes_count hv n rfl).writable)
  have hstr : ∀ v : Option String, (v.map Json.str).map (Json.reread depth) = v.map Json.str := by
    intro v
    cases v <;> rfl
  simp only [fields, List.map_cons, List.map_nil, Prod.map_apply, hstr, hcount h.limit, hcount h.offset,
    Option.map_some, reread_writable _ (d.encodes_columns hdepth).writable,
    reread_writable _ (d.encodes_joins hdepth).writable,
    reread_writable _ (d.encodes_groupBy (Nat.lt_of_succ_lt hdepth)).writable,
    reread_writable _ (d.encodes_orderBy hdepth).writable]
  rfl

theorem ofJson?_reread_at {d : Definition} {depth : Nat} (hdepth : depth + 2 < maxDepth) (h : d.Typed) :
    ofJson? (Json.reread depth d.toJson) = if d.FitsAt depth then some d.reread else none := by
  have hconditions : asList? Condition.ofJson?
      (Json.reread (depth + 1) (.arr (d.conditions.map Condition.toJson))) = if d.FitsAt depth then
        some (d.conditions.map Condition.reread) else none :=
    asList?_reread (by omega) fun c hc => Condition.ofJson?_reread hdepth (h.conditions c hc)
  rw [toJson_eq, reread_present (by omega), reread_fields hdepth h, ofJson?_fields h.limit h.offset, hconditions]
  split <;> rfl

/-- A definition is read of a document if it fits into one. -/
theorem ofJson?_reread {d : Definition} (h : d.Typed) :
    ofJson? (Json.reread depthInDocument d.toJson) = if d.Fits then some d.reread else none :=
  ofJson?_reread_at (by decide) h

/-! ## Definitions that were read -/

theorem asInt?_some {low high i : Int} {j : Json} (h : j.asInt? low high = some i) : low ≤ i ∧ i ≤ high := by
  cases j with
  | int n =>
    obtain ⟨hrange, h⟩ := Option.ite_none_right_eq_some.1 h
    cases h
    simpa using hrange
  | _ => cases h

section Fields

variable {α : Type} {read : Json → Option α} {p : α → Prop}

theorem withDefault_some {default a : α} (hdefault : p default) (hread : ∀ {j a}, read j = some a → p a)
    {field : Option Json} (h : withDefault default read field = some a) : p a := by
  cases field with
  | none =>
    cases h
    exact hdefault
  | some j => exact hread h

theorem optional_some (hread : ∀ {j a}, read j = some a → p a) {field : Option Json} {v : Option α}
    (h : optional read field = some v) : ∀ a ∈ v, p a := by
  refine @withDefault_some _ _ (fun v => ∀ a ∈ v, p a) none v nofun ?_ field h
  intro j v hv
  unfold asOption? at hv
  split at hv
  · cases hv
    nofun
  · obtain ⟨a, ha, hv⟩ := Option.map_eq_some_iff.1 hv
    cases hv
    rintro _ ⟨⟩
    exact hread ha

theorem asList?_some (hread : ∀ {j a}, read j = some a → p a) {j : Json} {as : List α}
    (h : asList? read j = some as) : ∀ a ∈ as, p a := by
  cases j with
  | arr items =>
    change items.mapM read = some as at h
    induction items generalizing as with
    | nil =>
      cases h
      exact List.forall_mem_nil _
    | cons j items ih =>
      rw [List.mapM_cons] at h
      obtain ⟨a, ha, h⟩ := Option.bind_eq_some_iff.1 h
      obtain ⟨as, has, h⟩ := Option.bind_eq_some_iff.1 h
      cases h
      exact List.forall_mem_cons.2 ⟨hread ha, ih has⟩
  | _ => cases h

end Fields

theorem GeometryText.srid_ofJson? {j : Json} {g : GeometryText} (h : ofJson? j = some g) :
    -0x80000000 ≤ g.srid ∧ g.srid ≤ 0x7FFFFFFF := by
  obtain ⟨fields, -, h⟩ := Option.bind_eq_some_iff.1 h
  split at h
  · obtain ⟨wkt, -, h⟩ := Option.bind_eq_some_iff.1 h
    obtain ⟨srid, hsrid, h⟩ := Option.bind_eq_some_iff.1 h
    obtain ⟨distance, -, h⟩ := Option.bind_eq_some_iff.1 h
    cases h
    obtain ⟨i, -, hi⟩ := Option.bind_eq_some_iff.1 hsrid
    exact asInt?_some hi
  · cases h

mutual

theorem typed_ofReadable? : (j : Json) → ∀ {c : Comparand}, Comparand.ofReadable? j = some c → c.Typed
  | .null, _, h | .bool _, _, h | .float _, _, h | .str _, _, h => by
    cases h
    trivial
  | .int i, _, h => by
    rw [Comparand.ofReadable?] at h
    cases h
    split
    · rename_i hrange
      have hrange : Value.minInt ≤ i ∧ i ≤ Value.maxInt := by simpa using hrange
      exact hrange
    · trivial
  | .arr items, _, h => by
    obtain ⟨cs, hcs, rfl⟩ := Option.map_eq_some_iff.1 h
    exact typed_listOfReadable? items hcs
  | .obj fields, _, h => by
    obtain ⟨g, hg, rfl⟩ := Option.map_eq_some_iff.1 h
    exact GeometryText.srid_ofJson? hg

theorem typed_listOfReadable? : (js : List Json) → ∀ {cs : List Comparand}, Comparand.listOfReadable? js = some cs →
    Comparand.ListTyped cs
  | [], _, h => by
    cases h
    trivial
  | j :: js, _, h => by
    rw [Comparand.listOfReadable?] at h
    split at h
    · rename_i c cs hc hcs
      cases h
      exact ⟨typed_ofReadable? j hc, typed_listOfReadable? js hcs⟩
    · cases h

end

theorem Condition.typed_ofJson? {j : Json} {c : Condition} (h : ofJson? j = some c) : c.value.Typed := by
  obtain ⟨fields, -, h⟩ := Option.bind_eq_some_iff.1 h
  split at h
  · obtain ⟨column, -, h⟩ := Option.bind_eq_some_iff.1 h
    obtain ⟨operator, -, h⟩ := Option.bind_eq_some_iff.1 h
    obtain ⟨value, hvalue, h⟩ := Option.bind_eq_some_iff.1 h
    obtain ⟨connective, -, h⟩ := Option.bind_eq_some_iff.1 h
    cases h
    have hnull : Comparand.null.Typed := trivial
    refine withDefault_some hnull (fun {j v} hv => ?_) hvalue
    obtain ⟨-, hv⟩ := Option.ite_none_right_eq_some.1 hv
    exact typed_ofReadable? j hv
  · cases h

/-- What is read of any value has whole numbers of the right types. -/
theorem typed_ofJson? {j : Json} {d : Definition} (h : ofJson? j = some d) : d.Typed := by
  obtain ⟨fields, -, h⟩ := Option.bind_eq_some_iff.1 h
  split at h
  · obtain ⟨name, -, h⟩ := Option.bind_eq_some_iff.1 h
    obtain ⟨schema, -, h⟩ := Option.bind_eq_some_iff.1 h
    obtain ⟨table, -, h⟩ := Option.bind_eq_some_iff.1 h
    obtain ⟨label, -, h⟩ := Option.bind_eq_some_iff.1 h
    obtain ⟨columns, -, h⟩ := Option.bind_eq_some_iff.1 h
    obtain ⟨joins, -, h⟩ := Option.bind_eq_some_iff.1 h
    obtain ⟨conditions, hconditions, h⟩ := Option.bind_eq_some_iff.1 h
    obtain ⟨groupBy, -, h⟩ := Option.bind_eq_some_iff.1 h
    obtain ⟨orderBy, -, h⟩ := Option.bind_eq_some_iff.1 h
    obtain ⟨limit, hlimit, h⟩ := Option.bind_eq_some_iff.1 h
    obtain ⟨offset, hoffset, h⟩ := Option.bind_eq_some_iff.1 h
    obtain ⟨distinct, -, h⟩ := Option.bind_eq_some_iff.1 h
    cases h
    have hcount : ∀ {j n}, asNat? Text.maxNat64 j = some n → n ≤ Text.maxNat64 := by
      intro j n hn
      obtain ⟨i, hi, rfl⟩ := Option.map_eq_some_iff.1 hn
      exact Int.toNat_le.2 (asInt?_some hi).2
    have hconditions : ∀ c ∈ conditions, c.value.Typed :=
      withDefault_some (List.forall_mem_nil _) (asList?_some Condition.typed_ofJson?) hconditions
    exact ⟨hconditions, optional_some hcount hlimit, optional_some hcount hoffset⟩
  · cases h

end SpatialQuery.Definition
