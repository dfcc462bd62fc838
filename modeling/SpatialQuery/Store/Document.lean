import SpatialQuery.Calendar.Reading
import SpatialQuery.Definition.Encoding
import SpatialQuery.Json.Printing
import SpatialQuery.Json.Reading
import SpatialQuery.Store

/-!
Stores as JSON documents.
-/

namespace SpatialQuery

def QueryKey.toJson (k : QueryKey) : Json :=
  .obj [("schema", .str k.schema), ("table", .str k.table), ("name", .str k.name)]

def QueryKey.ofJson? (j : Json) : Option QueryKey := do
  match ← j.record? ["schema", "table", "name"] with
  | [schema, table, name] =>
    return ⟨← Json.required Json.asString? schema, ← Json.required Json.asString? table,
      ← Json.required Json.asString? name⟩
  | _ => none

def SavedQuery.toJson (q : SavedQuery) : Json :=
  .obj [("key", q.key.toJson), ("definition", q.definition.toJson), ("revision", .ofNat q.revision),
    ("savedAt", .str (String.ofList q.savedAt.utcText))]

/-- Reads a time in UTC. -/
def Json.asTime? (j : Json) : Option Calendar.DateTime :=
  j.asString?.bind fun s => Calendar.readLooseUtc? s.toList

def SavedQuery.ofJson? (j : Json) : Option SavedQuery := do
  match ← j.record? ["key", "definition", "revision", "savedAt"] with
  | [key, definition, revision, savedAt] =>
    return {
      key := ← Json.required QueryKey.ofJson? key
      definition := ← Json.required Definition.ofJson? definition
      revision := ← Json.required (Json.asNat? Text.maxNat64) revision
      savedAt := ← Json.required Json.asTime? savedAt }
  | _ => none

namespace Store

/-- The version of the format. -/
def version : Nat := 1

def toJson (s : Store) : Json :=
  .obj [("version", .ofNat version), ("queries", .arr (s.queries.map SavedQuery.toJson))]

/-- Reads a document of any version. -/
def ofJson? (j : Json) : Option Store := do
  match ← j.record? ["version", "queries"] with
  | [number, queries] =>
    let _ ← Json.required (Json.asNat? (UInt32.size - 1)) number
    return .ofList (← Json.required (Json.asList? SavedQuery.ofJson?) queries)
  | _ => none

/-- The text of a document. -/
def document (s : Store) : String :=
  s.toJson.pretty ++ "\n"

def ofDocument? (text : String) : Option Store :=
  (Json.read? text).bind ofJson?

end Store

end SpatialQuery
