import SpatialQuery.Json.Printing
import SpatialQuery.Text.Base64
import SpatialQuery.Url

/-!
Requests over HTTP and their responses. A network is known by the responses that it brings.
-/

namespace SpatialQuery.Http

inductive Method where
  | get
  | post
  | put
  | delete
  deriving DecidableEq, Repr

def Method.name : Method → String
  | get => "GET"
  | post => "POST"
  | put => "PUT"
  | delete => "DELETE"

/-- A request of a user for JSON, which may send some. -/
structure Request where
  method : Method
  url : Url
  user : String
  password : String
  body : Option Json := none

namespace Request

/-- The type of what is sent and asked for. -/
def mediaType : String := "application/json"

/-- The user and the password, as a header carries them. -/
def authorization (r : Request) : String :=
  "Basic " ++ String.ofList (Text.Base64.encode (Bytes.ofString (r.user ++ ":" ++ r.password)))

def bodyText (r : Request) : Option String :=
  r.body.map Json.compact

end Request

structure Response where
  status : Nat
  body : String
  deriving DecidableEq, Repr

def Response.isSuccess (r : Response) : Bool :=
  200 ≤ r.status && r.status < 300

def Response.isNotFound (r : Response) : Bool :=
  r.status == 404

/-- What sends requests. A request that does not reach its server has no response. -/
abbrev Network (m : Type → Type) := Request → m (Option Response)

end SpatialQuery.Http
