import SpatialQuery.Proofs.Definition.Reread
import SpatialQuery.Proofs.Definition.Shapes

/-!
Definitions that are written and read again. The values of the conditions that are read have the kinds they had, at
every depth (`sameShape_reread`). The definition itself is read exactly if its values are not nested too deeply and its
numbers that are not whole are read back (`readBack_exact`).
-/

namespace SpatialQuery

/-! ## Numbers -/

namespace Json

theorem isSome_rereadFloat? {x : Float} (h : x.isFinite = true) : (rereadFloat? x).isSome = true := by
  obtain ⟨n, y, hy, hread⟩ := read_float h
  rw [rereadFloat?, reread_finite hread, hy]
  rfl

theorem rereadFloat?_eq_iff {x : Float} : rereadFloat? x = some x ↔ ReadsBack x := by
  have hread : read? (compact (.float x)) = some (reread 0 (.float x)) := by
    have hchars := read?_chars false (.float x) (List.forall_mem_nil _)
    rwa [List.append_nil] at hchars
  rw [ReadsBack, hread, reread_float]
  cases rereadFloat? x <;> simp

/-- A number is read back if its text is a fraction that stands for it. -/
theorem readsBack_of_numeral {x : Float} {n : Numeral} (hread : Numeral.read (chars false 0 (.float x)) = some (n, []))
    (hfraction : n.fraction.isSome = true) (hfloat : n.float? = some x) : ReadsBack x := by
  have hskip : skipSpace (chars false 0 (.float x)) = chars false 0 (.float x) := by
    obtain ⟨c, cs, hcs, hc⟩ := Numeral.head_of_read hread
    rw [hcs, skipSpace_cons (isSpace_of_number hc)]
  have hvalue : n.toJson = .float x := by
    rw [Numeral.toJson, Numeral.whole?, hfraction, Bool.true_or, if_pos rfl, hfloat]
    rfl
  have hreads := read?_of_reads (List.forall_mem_nil _) (reads_number (hskip ▸ hread) rfl ends_nil)
  rwa [List.append_nil, hvalue] at hreads

end Json

namespace Definition

open Json

/-! ## Values of conditions -/

mutual

/-- The numbers of the value that are not whole. -/
def Comparand.floats : Comparand → List Float
  | .float x => [x]
  | .list items => Comparand.listFloats items
  | .geometry g => g.distance.toList
  | _ => []

def Comparand.listFloats : List Comparand → List Float
  | [] => []
  | c :: cs => c.floats ++ Comparand.listFloats cs

end

mutual

/-- What is read of a value is of its kind, at every depth. -/
theorem Comparand.sameShape_reread : (c : Comparand) → (∀ x ∈ c.floats, x.isFinite = true) → c.SameShape c.reread
  | .null, _ => .null
  | .bool b, _ => .bool b b
  | .int i, _ => .int i i
  | .text s, _ => .text s s
  | .float x, h => by
    obtain ⟨y, hy⟩ := Option.isSome_iff_exists.1 (isSome_rereadFloat? (h x List.mem_cons_self))
    rw [reread, hy]
    exact .float x y
  | .list items, h => .list (sameShapes_reread items h)
  | .geometry g, h => by
    refine .geometry ?_
    cases hdistance : g.distance with
    | none => rw [GeometryText.reread, hdistance, Option.bind_none]
    | some x =>
      have hx : x ∈ (Comparand.geometry g).floats := Option.mem_toList.2 hdistance
      rw [GeometryText.reread, hdistance, Option.bind_some, isSome_rereadFloat? (h x hx), Option.isSome_some]

theorem Comparand.sameShapes_reread : (cs : List Comparand) → (∀ x ∈ listFloats cs, x.isFinite = true) →
    List.Forall₂ SameShape cs (rereadList cs)
  | [], _ => .nil
  | c :: cs, h => by
    rw [listFloats, List.forall_mem_append] at h
    exact .cons (sameShape_reread c h.1) (sameShapes_reread cs h.2)

end

mutual

theorem Comparand.reread_eq_iff : (c : Comparand) → (c.reread = c ↔ ∀ x ∈ c.floats, ReadsBack x)
  | .null | .bool _ | .int _ | .text _ => iff_of_true rfl (List.forall_mem_nil _)
  | .float x => by
    rw [reread, floats, List.forall_mem_singleton, ← rereadFloat?_eq_iff]
    cases rereadFloat? x <;> simp
  | .list items => by
    rw [reread, list.injEq]
    exact rereadList_eq_iff items
  | .geometry g => by
    rw [reread, geometry.injEq, GeometryText.reread]
    cases hdistance : g.distance with
    | none =>
      rw [floats, hdistance]
      refine iff_of_true ?_ (List.forall_mem_nil _)
      rw [Option.bind_none, ← hdistance]
    | some x =>
      have hsame : { g with distance := rereadFloat? x } = g ↔ rereadFloat? x = some x :=
        ⟨fun h => (congrArg GeometryText.distance h).trans hdistance, fun h => by rw [h, ← hdistance]⟩
      rw [floats, hdistance, Option.bind_some, hsame, rereadFloat?_eq_iff]
      exact List.forall_mem_singleton.symm

theorem Comparand.rereadList_eq_iff : (cs : List Comparand) →
    (rereadList cs = cs ↔ ∀ x ∈ listFloats cs, ReadsBack x)
  | [] => iff_of_true rfl (List.forall_mem_nil _)
  | c :: cs => by
    rw [rereadList, listFloats, List.forall_mem_append, List.cons.injEq, reread_eq_iff c, rereadList_eq_iff cs]

end

/-! ## Whole definitions -/

/-- The numbers of the definition that are not whole. All of them belong to its conditions. -/
def floats (d : Definition) : List Float :=
  d.conditions.flatMap fun c => c.value.floats

theorem floats_iff {d : Definition} {p : Float → Prop} :
    (∀ x ∈ d.floats, p x) ↔ ∀ c ∈ d.conditions, ∀ x ∈ c.value.floats, p x := by
  simp only [floats, List.mem_flatMap, forall_exists_index, and_imp]
  exact ⟨fun h c hc x hx => h x c hc hx, fun h x c hc hx => h c hc x hx⟩

theorem sameShape_reread {d : Definition} (h : ∀ x ∈ d.floats, x.isFinite = true) : d.SameShape d.reread := by
  refine ⟨_, rfl, List.forall₂_map_right_iff.2 (List.forall₂_same.2 fun c hc => ?_)⟩
  exact ⟨rfl, rfl, c.value.sameShape_reread (floats_iff.1 h c hc), rfl⟩

theorem reread_eq_iff {d : Definition} : d.reread = d ↔ ∀ x ∈ d.floats, ReadsBack x := by
  have hconditions : d.reread = d ↔ d.conditions.map Condition.reread = d.conditions :=
    ⟨congrArg conditions, fun h => by rw [reread, h]⟩
  have hcondition : ∀ c : Condition, c.reread = c ↔ c.value.reread = c.value := fun c =>
    ⟨congrArg Condition.value, fun h => by rw [Condition.reread, h]⟩
  rw [hconditions, floats_iff]
  nth_rewrite 2 [← List.map_id d.conditions]
  rw [List.map_inj_left]
  exact forall₂_congr fun c _ => (hcondition c).trans c.value.reread_eq_iff

/-- What is read of the text of a definition, which has line breaks or none. -/
def readBack (pretty : Bool) (d : Definition) : Option Definition :=
  (Json.read? (String.ofList (chars pretty 0 d.toJson))).bind ofJson?

theorem readBack_eq {d : Definition} (h : d.Typed) (pretty : Bool) :
    d.readBack pretty = if d.FitsAt 0 then some d.reread else none := by
  have hread := read?_chars pretty d.toJson (List.forall_mem_nil _)
  rw [List.append_nil] at hread
  rw [readBack, hread, Option.bind_some, ofJson?_reread_at (by decide) h]

/-- From the text of a definition whose values are not nested too deeply, a definition with values of the same kinds
is read. It is the same one if and only if the numbers that are not whole are read back. -/
theorem readBack_exact {d : Definition} (h : d.Typed) (pretty : Bool) :
    (d.FitsAt 0 → (∀ x ∈ d.floats, x.isFinite = true) → ∃ d', d.readBack pretty = some d' ∧ d.SameShape d') ∧
      (d.readBack pretty = some d ↔ d.FitsAt 0 ∧ ∀ x ∈ d.floats, ReadsBack x) := by
  rw [readBack_eq h, ← reread_eq_iff]
  constructor
  · intro hfits hfinite
    exact ⟨d.reread, if_pos hfits, sameShape_reread hfinite⟩
  · rw [Option.ite_none_right_eq_some, Option.some.injEq]

/-- Distances and shares of roads, of which some look like whole numbers. -/
def roadsMeasured : Definition where
  name := some "measured"
  schema := "gis"
  table := "roads"
  columns := [{ source := "kind" }, { source := "*", aggregate := some .count, label := some "n" }]
  joins := [{ kind := .left, table := "towns", schema := "gis", left := some "town", right := some "towns.id" }]
  conditions := [
    ⟨"geom", .withinDistance, .geometry ⟨"POINT(0 0)", 4326, some 0.5⟩, .and⟩,
    ⟨"share", .member, .list [.int 5, .float 5.0, .list [.null, .list [], .text "5"], .bool true], .or⟩]
  groupBy := ["kind"]
  limit := some 10

theorem readBack_roadsMeasured : roadsMeasured.Typed ∧
    ∀ pretty, roadsMeasured.readBack pretty = some roadsMeasured := by
  have hhalf : ReadsBack 0.5 := by
    have htext : chars false 0 (.float 0.5) = "0.5".toList := by decide +kernel
    have hscale : scale (Float.ofNat 5) (-1) = some 0.5 := by
      rw [scale]
      decide +kernel
    have hread : Numeral.read "0.5".toList = some (⟨false, ['0'], some ['5'], none⟩, []) := rfl
    refine readsBack_of_numeral (htext ▸ hread) rfl ?_
    simp [Numeral.float?, appendDigits, Text.digitValue, Text.maxNat64, hscale]
  have hfive : ReadsBack 5.0 := by
    have htext : chars false 0 (.float 5.0) = "5.0".toList := by decide +kernel
    have hscale : scale (Float.ofNat 50) (-1) = some 5.0 := by
      rw [scale]
      decide +kernel
    have hread : Numeral.read "5.0".toList = some (⟨false, ['5'], some ['0'], none⟩, []) := rfl
    refine readsBack_of_numeral (htext ▸ hread) rfl ?_
    simp [Numeral.float?, appendDigits, Text.digitValue, Text.maxNat64, hscale]
  have htyped : roadsMeasured.Typed := by
    refine ⟨?_, by decide, fun n hn => by cases hn⟩
    refine List.forall_mem_cons.2 ⟨?_, List.forall_mem_singleton.2 ?_⟩
    · exact ⟨by decide, by decide⟩
    · exact ⟨⟨by decide, by decide⟩, trivial, ⟨trivial, trivial, trivial, trivial⟩, trivial, trivial⟩
  have hfloats : ∀ x ∈ roadsMeasured.floats, ReadsBack x :=
    List.forall_mem_cons.2 ⟨hhalf, List.forall_mem_singleton.2 hfive⟩
  exact ⟨htyped, fun pretty => (readBack_exact htyped pretty).2.2 ⟨by decide, hfloats⟩⟩

end Definition

end SpatialQuery
