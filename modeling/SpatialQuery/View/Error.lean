import SpatialQuery.Token
import SpatialQuery.View

/-!
What can go wrong when a view is published.
-/

namespace SpatialQuery.View

/-- What makes a view invalid. -/
inductive Flaw where
  | name (part : String)
  | unclosed (what : Construct) (offset : Nat)
  /-- A value that cannot be the default of a parameter. -/
  | value (v : String) (number : Nat)
  | unbound (number : Nat)
  /-- A literal or a quoted name in which a parameter would be replaced. -/
  | referenceInside (token reference : String)
  /-- A layer of the server that is no SQL view. -/
  | notView (id : ViewId)
  | unknownType (given : String)
  deriving DecidableEq, Repr

def Flaw.message : Flaw → String
  | name part => s!"'{part}' is not a valid workspace, datastore or layer name"
  | unclosed what offset => s!"Unterminated {what.name} at offset {offset}"
  | value v number => s!"Value {v} for ${number} can't be published as a view parameter"
  | unbound number => s!"No value bound to ${number}"
  | referenceInside token reference => s!"{token} contains the parameter reference {reference}"
  | notView id => s!"{id.display} is not a SQL view"
  | unknownType given => s!"Unknown geometry type {given}"

/-- Why a server was not reached, or was not understood. -/
inductive Transport where
  | invalidUrl (url : String)
  | noReply (url : String)
  /-- The URL is none that requests can be sent to. -/
  | unsendable (url : String)
  | unreadable (url : String)
  | other (message : String)
  deriving DecidableEq, Repr

def Transport.message : Transport → String
  | invalidUrl url => s!"Invalid GeoServer URL {url}"
  | noReply url => s!"error sending request for url ({url})"
  | unsendable url => s!"builder error for url ({url})"
  | unreadable url => s!"error decoding response body for url ({url})"
  | other m => m

inductive PublishError where
  | missingGeometry
  | remote (status : Nat) (message : String)
  | notFound (id : ViewId)
  | transport (t : Transport)
  | invalid (f : Flaw)
  deriving DecidableEq, Repr

namespace PublishError

def code : PublishError → String
  | missingGeometry => "MissingGeometry"
  | remote .. => "Remote"
  | notFound _ => "NotFound"
  | transport _ => "Transport"
  | invalid _ => "InvalidView"

def message : PublishError → String
  | missingGeometry => "Geometry metadata is required to publish a view"
  | remote status m => s!"Server responded with {status}: {m}"
  | notFound id => s!"View '{id.display}' is not published"
  | transport t => s!"Failed to reach the server: {t.message}"
  | invalid f => s!"Invalid view: {f.message}"

end PublishError

/-- The identity of three parts. -/
def readId (workspace datastore name : String) : Except PublishError ViewId :=
  (ViewId.ofParts workspace datastore name).mapError fun part => .invalid (.name part)

end SpatialQuery.View
