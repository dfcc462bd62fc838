import SpatialQuery.GeoServer.FeatureType
import SpatialQuery.Http
import SpatialQuery.Json.Reading
import SpatialQuery.Service
import SpatialQuery.Url.Reading

/-!
Map servers that publish views as layers, and the requests by which views are published there.
-/

namespace SpatialQuery

structure GeoServer where
  /-- The root of the server. -/
  base : Url
  user : String
  password : String
  deriving DecidableEq, Repr

namespace GeoServer

def ofUrl (url user password : String) : Except View.PublishError GeoServer :=
  match Url.read? url with
  | some base => .ok ⟨base, user, password⟩
  | none => .error (.transport (.invalidUrl url))

/-- The URL of the layers of a store of data. -/
def layersUrl (g : GeoServer) (id : ViewId) : Url :=
  g.base.append ["rest", "workspaces", id.workspace, "datastores", id.datastore, "featuretypes"]

def layerUrl (g : GeoServer) (id : ViewId) : Url :=
  (g.layersUrl id).append [id.name]

def endpoints (g : GeoServer) (id : ViewId) : Endpoints :=
  ⟨id.layer, (g.base.append [id.workspace, "wms"]).text, (g.base.append [id.workspace, "wfs"]).text⟩

/-! ## Requests -/

/-- A request. The user is not named in its URL. -/
def request (g : GeoServer) (method : Http.Method) (url : Url) (body : Option Json := none) :
    Http.Request :=
  { method
    url := { url with authority := url.authority.map fun a => { a with user := [], password := [] } }
    user := g.user
    password := g.password
    body }

def createRequest (g : GeoServer) (v : View) : Http.Request :=
  g.request .post (g.layersUrl v.id) (some (FeatureType.ofView v).toJson)

/-- The bounds of the layer are computed anew. -/
def updateRequest (g : GeoServer) (v : View) : Http.Request :=
  g.request .put ((g.layerUrl v.id).appendPair "recalculate" "nativebbox,latlonbbox")
    (some (FeatureType.ofView v).toJson)

/-- The layer goes with the feature type. -/
def deleteRequest (g : GeoServer) (id : ViewId) : Http.Request :=
  g.request .delete ((g.layerUrl id).appendPair "recurse" "true")

def fetchRequest (g : GeoServer) (id : ViewId) : Http.Request :=
  g.request .get (g.layerUrl id)

/-! ## Responses -/

/-- A response that is no failure; what is not found may be none. -/
def accepted (r : Http.Response) : Except View.PublishError Http.Response :=
  if r.isSuccess || r.isNotFound then .ok r else .error (.remote r.status r.body)

/-- A response for something that must be there. -/
def found (id : ViewId) (r : Http.Response) : Except View.PublishError Unit :=
  if r.isNotFound then .error (.notFound id) else .ok ()

/-- The view that a response describes. -/
def readView (q : Http.Request) (id : ViewId) (r : Http.Response) :
    Except View.PublishError (Option View) :=
  if r.isNotFound then .ok none
  else match (Json.read? r.body).bind FeatureType.ofJson? with
    | none => .error (.transport (.unreadable q.url.text))
    | some f => ((f.view id).mapError .invalid).map some

variable {m : Type → Type} [Monad m]

/-- Sends a request, and takes a response that is no failure. -/
def send (n : Http.Network m) (q : Http.Request) : ExceptT View.PublishError m Http.Response := do
  if !Url.isWeb q.url.scheme then throw (.transport (.unsendable q.url.text))
  match ← n q with
  | none => throw (.transport (.noReply q.url.text))
  | some r => liftM (accepted r)

/-- Sends a request that changes something, if it is there. -/
def change (n : Http.Network m) (id : ViewId) (q : Http.Request) : ExceptT View.PublishError m Unit := do
  liftM (found id (← send n q))

/-- The service of a map server. -/
def service (g : GeoServer) (n : Http.Network m) : Service m :=
  { create := fun v => do
      change n v.id (g.createRequest v)
      return g.endpoints v.id
    update := fun v => do
      change n v.id (g.updateRequest v)
      return g.endpoints v.id
    delete := fun id => change n id (g.deleteRequest id)
    fetch := fun id => do
      let q := g.fetchRequest id
      liftM (readView q id (← send n q))
    endpoints := g.endpoints }

end GeoServer

end SpatialQuery
