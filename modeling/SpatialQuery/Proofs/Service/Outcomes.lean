import SpatialQuery.Service.Registry

/-!
Operations on a service that keeps its views in a registry, and the ways in which they end (`perform_outcome`).
-/

namespace SpatialQuery

/-! ## Runs of computations that may fail -/

section Runs

variable {ε σ α β : Type} {s s' : σ}

theorem run_bind_ok {x : ExceptT ε (StateM σ) α} {a : α} (h : x.run.run s = (.ok a, s'))
    (f : α → ExceptT ε (StateM σ) β) : (x >>= f).run.run s = (f a).run.run s' := by
  rw [ExceptT.run_bind, StateT.run_bind, h]
  rfl

theorem run_bind_error {x : ExceptT ε (StateM σ) α} {e : ε} (h : x.run.run s = (.error e, s'))
    (f : α → ExceptT ε (StateM σ) β) : (x >>= f).run.run s = (.error e, s') := by
  rw [ExceptT.run_bind, StateT.run_bind, h]
  rfl

theorem run_map {x : ExceptT ε (StateM σ) α} {result : Except ε α} (h : x.run.run s = (result, s')) (f : α → β) :
    (f <$> x).run.run s = (result.map f, s') := by
  rw [map_eq_pure_bind]
  cases result with
  | error e => exact run_bind_error h _
  | ok a => exact run_bind_ok h _

theorem run_lift {x result : Except ε α} (h : x = result) :
    (liftM x : ExceptT ε (StateM σ) α).run.run s = (result, s) := by
  rw [h]
  rfl

end Runs

/-! ## Views -/

theorem ofStatement_ok {id : ViewId} {s : Validated} {geometry : Option Geometry.Column} {key : Option String}
    {v : View} (h : View.ofStatement id s geometry key = .ok v) :
    v.id = id ∧ v.keyColumn = key ∧ View.ofStatement id s geometry none = .ok { v with keyColumn := none } := by
  cases geometry with
  | none => cases h
  | some g =>
    unfold View.ofStatement at h ⊢
    dsimp only at h ⊢
    split at h
    · cases h
    · cases h
      exact ⟨rfl, rfl, rfl⟩

theorem keyColumn_of_sameDefinition {v w : View} (h : w.sameDefinition v = true) : w.keyColumn = v.keyColumn := by
  simp only [View.sameDefinition, Bool.and_eq_true, beq_iff_eq] at h
  exact h.2

/-! ## Operations -/

namespace Service

inductive Operation where
  | publish (v : View)
  | revise (id : ViewId) (s : Validated) (geometry : Option Geometry.Column)
  | unpublish (id : ViewId)

/-- The identity that an operation is about. -/
def Operation.id : Operation → ViewId
  | publish v => v.id
  | revise id _ _ | unpublish id => id

def perform {m : Type → Type} [Monad m] (s : Service m) : Operation → ExceptT View.PublishError m (Option Endpoints)
  | .publish v => some <$> s.publish v
  | .revise id v geometry => some <$> s.revise id v geometry
  | .unpublish id => (fun _ => none) <$> s.unpublish id

end Service

namespace Registry

open Service

/-! ## Calls -/

/-- The error of a call that is made to fail. -/
def failing (r : Registry) (c : Call) : Option View.PublishError :=
  (r.fault.filter (·.1 == c)).map Prod.snd

/-- The registry behind a call without an effect. -/
def called (r : Registry) (c : Call) : Registry :=
  { r with calls := r.calls ++ [c], fault := r.fault.filter (·.1 != c) }

/-- The registry with other views. -/
def holding (r : Registry) (views : List View) : Registry :=
  { r with views }

@[simp] theorem called_views (r : Registry) (c : Call) : (r.called c).views = r.views := rfl

@[simp] theorem called_calls (r : Registry) (c : Call) : (r.called c).calls = r.calls ++ [c] := rfl

@[simp] theorem called_find? (r : Registry) (c : Call) (id : ViewId) : (r.called c).find? id = r.find? id := rfl

section Calls

variable {r : Registry} {c : Call} {e : View.PublishError} {id : ViewId} {v : View}

theorem call_failed (h : r.failing c = some e) : (call c).run.run r = (.error e, r.called c) := by
  refine (run_bind_ok (a := r) rfl _).trans ?_
  obtain ⟨views, calls, _ | ⟨fault, e'⟩⟩ := r
  · cases h
  · by_cases hc : fault = c
    · simp only [failing, Option.filter, hc, beq_self_eq_true, if_true, Option.map_some, Option.some.injEq] at h
      subst h
      simp only [hc, called, Option.filter, bne_self_eq_false, beq_self_eq_true, if_true]
      rfl
    · simp [failing, Option.filter, hc] at h

theorem call_ok (h : r.failing c = none) : (call c).run.run r = (.ok (), r.called c) := by
  refine (run_bind_ok (a := r) rfl _).trans ?_
  obtain ⟨views, calls, _ | ⟨fault, e'⟩⟩ := r
  · rfl
  · by_cases hc : fault = c
    · simp [failing, Option.filter, hc] at h
    · have hne : (fault == c) = false := beq_eq_false_iff_ne.2 hc
      simp only [called, Option.filter, bne, hne, Bool.not_false, if_true]
      rfl

theorem create_taken (h : r.failing .create = none) (hfound : (r.find? v.id).isSome = true) :
    (create v).run.run r =
      (.error (.remote 500 s!"Resource named '{v.id.name}' already exists"), r.called .create) := by
  refine (run_bind_ok (call_ok h) _).trans ((run_bind_ok (a := r.called .create) rfl _).trans ?_)
  rw [called_find?, if_pos hfound]
  rfl

theorem create_ok (h : r.failing .create = none) (hfree : r.find? v.id = none) :
    (create v).run.run r = (.ok (endpoints v.id), (r.called .create).holding (r.views ++ [v])) := by
  refine (run_bind_ok (call_ok h) _).trans ((run_bind_ok (a := r.called .create) rfl _).trans ?_)
  rw [called_find?, hfree]
  rfl

theorem update_ok (h : r.failing .update = none) :
    (update v).run.run r = (.ok (endpoints v.id), (r.called .update).holding (r.without v.id ++ [v])) :=
  run_bind_ok (call_ok h) _

theorem delete_missing (h : r.failing .delete = none) (hfree : r.find? id = none) :
    (delete id).run.run r = (.error (.notFound id), r.called .delete) := by
  refine (run_bind_ok (call_ok h) _).trans ((run_bind_ok (a := r.called .delete) rfl _).trans ?_)
  rw [called_find?, hfree]
  rfl

theorem delete_ok (h : r.failing .delete = none) (hfound : (r.find? id).isSome = true) :
    (delete id).run.run r = (.ok (), (r.called .delete).holding (r.without id)) := by
  refine (run_bind_ok (call_ok h) _).trans ((run_bind_ok (a := r.called .delete) rfl _).trans ?_)
  rw [called_find?, if_neg (by simpa [Option.isSome_iff_ne_none] using hfound)]
  rfl

theorem fetch_ok (h : r.failing .fetch = none) : (fetch id).run.run r = (.ok (r.find? id), r.called .fetch) :=
  run_bind_ok (call_ok h) _

end Calls

/-! ## Outcomes -/

/-- A view with the key column of the one that it replaces. -/
def keyed (v w : View) : View :=
  { v with keyColumn := w.keyColumn }

/-- How an operation ends: what it answers, and the registry that it leaves. -/
inductive Outcome (r : Registry) : Operation → Except View.PublishError (Option Endpoints) → Registry → Prop
  | createFailed {v e} : r.failing .create = some e → Outcome r (.publish v) (.error e) (r.called .create)
  | taken {v e} : (r.find? v.id).isSome = true → Outcome r (.publish v) (.error e) (r.called .create)
  | published {v} : r.find? v.id = none →
      Outcome r (.publish v) (.ok (some (endpoints v.id))) ((r.called .create).holding (r.views ++ [v]))
  | unbuilt {id s g e} : View.ofStatement id s g none = .error e → Outcome r (.revise id s g) (.error e) r
  | fetchFailed {id s g v e} : View.ofStatement id s g none = .ok v → r.failing .fetch = some e →
      Outcome r (.revise id s g) (.error e) (r.called .fetch)
  | unknown {id s g v} : View.ofStatement id s g none = .ok v → r.failing .fetch = none → r.find? id = none →
      Outcome r (.revise id s g) (.error (.notFound id)) (r.called .fetch)
  | kept {id s g v w} : View.ofStatement id s g none = .ok v → r.failing .fetch = none → r.find? id = some w →
      w.sameDefinition (keyed v w) = true →
        Outcome r (.revise id s g) (.ok (some (endpoints id))) (r.called .fetch)
  | updateFailed {id s g v w e} : View.ofStatement id s g none = .ok v → r.failing .fetch = none →
      r.find? id = some w → w.sameDefinition (keyed v w) = false → (r.called .fetch).failing .update = some e →
        Outcome r (.revise id s g) (.error e) ((r.called .fetch).called .update)
  | revised {id s g v w} : View.ofStatement id s g none = .ok v → r.failing .fetch = none → r.find? id = some w →
      w.sameDefinition (keyed v w) = false → Outcome r (.revise id s g) (.ok (some (endpoints id)))
        (((r.called .fetch).called .update).holding (r.without id ++ [keyed v w]))
  | deleteFailed {id e} : r.failing .delete = some e → Outcome r (.unpublish id) (.error e) (r.called .delete)
  | absent {id} : r.find? id = none → Outcome r (.unpublish id) (.error (.notFound id)) (r.called .delete)
  | unpublished {id} : (r.find? id).isSome = true →
      Outcome r (.unpublish id) (.ok none) ((r.called .delete).holding (r.without id))

/-- An operation, made in a registry. -/
def perform (r : Registry) (o : Operation) : Except View.PublishError (Option Endpoints) × Registry :=
  (service.perform o).run.run r

section Perform

variable {r r' : Registry}

theorem publish_outcome {v : View} : Outcome r (.publish v) (r.perform (.publish v)).1 (r.perform (.publish v)).2 := by
  have hrun : ∀ {result : Except View.PublishError Endpoints} {r'}, (create v).run.run r = (result, r') →
      r.perform (.publish v) = (result.map some, r') := fun h => run_map h some
  cases hfault : r.failing .create with
  | some e =>
    rw [hrun (run_bind_error (call_failed hfault) _)]
    exact .createFailed hfault
  | none =>
    cases hfound : r.find? v.id with
    | some w =>
      rw [hrun (create_taken hfault (by rw [hfound]; rfl))]
      exact .taken (by rw [hfound]; rfl)
    | none =>
      rw [hrun (create_ok hfault hfound)]
      exact .published hfound

theorem unpublish_outcome {id : ViewId} :
    Outcome r (.unpublish id) (r.perform (.unpublish id)).1 (r.perform (.unpublish id)).2 := by
  have hrun : ∀ {result : Except View.PublishError Unit} {r'}, (delete id).run.run r = (result, r') →
      r.perform (.unpublish id) = (result.map fun _ => none, r') := fun h => run_map h _
  cases hfault : r.failing .delete with
  | some e =>
    rw [hrun (run_bind_error (call_failed hfault) _)]
    exact .deleteFailed hfault
  | none =>
    cases hfound : r.find? id with
    | some w =>
      have hsome : (r.find? id).isSome = true := by rw [hfound]; rfl
      rw [hrun (delete_ok hfault hsome)]
      exact .unpublished hsome
    | none =>
      rw [hrun (delete_missing hfault hfound)]
      exact .absent hfound

theorem revise_unfetched {id : ViewId} {s : Validated} {g : Option Geometry.Column} {v : View} {e : View.PublishError}
    (hv : View.ofStatement id s g none = .ok v) (hfault : r.failing .fetch = some e) :
    (service.revise id s g).run.run r = (.error e, r.called .fetch) := by
  have hfetch : (fetch id).run.run r = (.error e, r.called .fetch) := run_bind_error (call_failed hfault) _
  exact (run_bind_ok (run_lift hv) _).trans (run_bind_error hfetch _)

/-- What is left to do for a view when the published one is known. -/
theorem revise_fetched {id : ViewId} {s : Validated} {g : Option Geometry.Column} {v : View}
    (hv : View.ofStatement id s g none = .ok v) (hfault : r.failing .fetch = none) :
    (service.revise id s g).run.run r =
      (match r.find? id with
        | none => throw (.notFound id)
        | some w => if w.sameDefinition (keyed v w) then return endpoints id else update (keyed v w) :
          ExceptT View.PublishError (StateM Registry) Endpoints).run.run (r.called .fetch) :=
  (run_bind_ok (run_lift hv) _).trans (run_bind_ok (fetch_ok hfault) _)

theorem revise_outcome {id : ViewId} {s : Validated} {g : Option Geometry.Column} :
    Outcome r (.revise id s g) (r.perform (.revise id s g)).1 (r.perform (.revise id s g)).2 := by
  have hrun : ∀ {result : Except View.PublishError Endpoints} {r'}, (service.revise id s g).run.run r = (result, r') →
      r.perform (.revise id s g) = (result.map some, r') := fun h => run_map h some
  -- the view is built, the published one is fetched, and only a different one is sent
  cases hv : View.ofStatement id s g none with
  | error e =>
    rw [hrun (run_bind_error (run_lift hv) _)]
    exact .unbuilt hv
  | ok v =>
    cases hfault : r.failing .fetch with
    | some e =>
      rw [hrun (revise_unfetched hv hfault)]
      exact .fetchFailed hv hfault
    | none =>
      have hfetched := revise_fetched hv hfault
      cases hfound : r.find? id with
      | none =>
        rw [hfound] at hfetched
        rw [hrun hfetched]
        exact .unknown hv hfault hfound
      | some w =>
        rw [hfound] at hfetched
        dsimp only at hfetched
        cases hsame : w.sameDefinition (keyed v w) with
        | true =>
          rw [hsame, if_pos rfl] at hfetched
          rw [hrun hfetched]
          exact .kept hv hfault hfound hsame
        | false =>
          rw [hsame, if_neg Bool.false_ne_true] at hfetched
          obtain ⟨rfl, -, -⟩ := ofStatement_ok hv
          cases hupdate : (r.called .fetch).failing .update with
          | some e =>
            rw [hrun (hfetched.trans (run_bind_error (call_failed hupdate) _))]
            exact .updateFailed hv hfault hfound hsame hupdate
          | none =>
            rw [hrun (hfetched.trans (update_ok hupdate))]
            exact .revised hv hfault hfound hsame

theorem perform_outcome (r : Registry) (o : Operation) : Outcome r o (r.perform o).1 (r.perform o).2 := by
  cases o with
  | publish v => exact publish_outcome
  | revise id s g => exact revise_outcome
  | unpublish id => exact unpublish_outcome

end Perform

end Registry

end SpatialQuery
