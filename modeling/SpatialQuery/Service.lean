import SpatialQuery.View.Template

/-!
Services that publish views, and what is asked of them: to publish a view, to give it a new statement,
and to take it back.
-/

namespace SpatialQuery

/-- Where the layer of a view is served. -/
structure Endpoints where
  layer : String
  wms : String
  wfs : String
  deriving DecidableEq, Repr

def Endpoints.toJson (e : Endpoints) : Json :=
  .obj [("layer", .str e.layer), ("wmsEndpoint", .str e.wms), ("wfsEndpoint", .str e.wfs)]

/-- A service, by its operations. -/
structure Service (m : Type → Type) where
  create : View → ExceptT View.PublishError m Endpoints
  /-- Replaces the definition of a view. -/
  update : View → ExceptT View.PublishError m Endpoints
  delete : ViewId → ExceptT View.PublishError m Unit
  /-- The view as it is published, if it is. -/
  fetch : ViewId → ExceptT View.PublishError m (Option View)
  endpoints : ViewId → Endpoints

namespace Service

variable {m : Type → Type} [Monad m]

def publish (s : Service m) (v : View) : ExceptT View.PublishError m Endpoints :=
  s.create v

/-- Gives a view a new statement. Its key column stays, and nothing is sent where nothing changes. -/
def revise (s : Service m) (id : ViewId) (v : Validated) (geometry : Option Geometry.Column) :
    ExceptT View.PublishError m Endpoints := do
  -- A statement that makes no view is refused before the service is asked anything.
  let view ← liftM (View.ofStatement id v geometry none)
  match ← s.fetch id with
  | none => throw (.notFound id)
  | some remote =>
    let view := { view with keyColumn := remote.keyColumn }
    if remote.sameDefinition view then return s.endpoints id else s.update view

def unpublish (s : Service m) (id : ViewId) : ExceptT View.PublishError m Unit :=
  s.delete id

end Service

end SpatialQuery
