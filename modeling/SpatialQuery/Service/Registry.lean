import SpatialQuery.Service

/-!
A service that keeps its views in a list. One of its calls can be made to fail without an effect.
-/

namespace SpatialQuery

inductive Service.Call where
  | create
  | update
  | delete
  | fetch
  deriving DecidableEq, Repr

def Service.Call.name : Service.Call → String
  | create => "create"
  | update => "update"
  | delete => "delete"
  | fetch => "fetch"

structure Registry where
  views : List View := []
  /-- The calls so far. -/
  calls : List Service.Call := []
  /-- The next call of this kind fails. -/
  fault : Option (Service.Call × View.PublishError) := none
  deriving DecidableEq, Repr

namespace Registry

def find? (r : Registry) (id : ViewId) : Option View :=
  r.views.find? (·.id == id)

/-- The views without the one of an identity. -/
def without (r : Registry) (id : ViewId) : List View :=
  r.views.filter (·.id != id)

/-- Keeps a record of a call, which fails if it was made to. -/
def call (c : Service.Call) : ExceptT View.PublishError (StateM Registry) Unit := do
  let r ← get
  match r.fault with
  | some (failing, e) =>
    if failing == c then
      set { r with calls := r.calls ++ [c], fault := none }
      throw e
    else set { r with calls := r.calls ++ [c] }
  | none => set { r with calls := r.calls ++ [c] }

def endpoints (id : ViewId) : Endpoints :=
  ⟨id.layer, s!"memory://{id.workspace}/wms", s!"memory://{id.workspace}/wfs"⟩

def create (v : View) : ExceptT View.PublishError (StateM Registry) Endpoints := do
  call .create
  let r ← get
  if (r.find? v.id).isSome then throw (.remote 500 s!"Resource named '{v.id.name}' already exists")
  set { r with views := r.views ++ [v] }
  return endpoints v.id

def update (v : View) : ExceptT View.PublishError (StateM Registry) Endpoints := do
  call .update
  let r ← get
  set { r with views := r.without v.id ++ [v] }
  return endpoints v.id

def delete (id : ViewId) : ExceptT View.PublishError (StateM Registry) Unit := do
  call .delete
  let r ← get
  if (r.find? id).isNone then throw (.notFound id)
  set { r with views := r.without id }

def fetch (id : ViewId) : ExceptT View.PublishError (StateM Registry) (Option View) := do
  call .fetch
  return (← get).find? id

def service : Service (StateM Registry) :=
  ⟨create, update, delete, fetch, endpoints⟩

end Registry

end SpatialQuery
