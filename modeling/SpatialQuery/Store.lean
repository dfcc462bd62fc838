import SpatialQuery.Calendar
import SpatialQuery.Definition
import SpatialQuery.Text.Blank

/-!
Stores of definitions. A query is found by its relation and its name; saving it again replaces it and
counts a revision.
-/

namespace SpatialQuery

structure QueryKey where
  schema : String
  table : String
  name : String
  deriving DecidableEq, Repr

namespace QueryKey

def display (k : QueryKey) : String :=
  s!"{k.schema}.{k.table}/{k.name}"

/-- The order of keys: by schema, table and name. -/
def before (a b : QueryKey) : Bool :=
  a.schema < b.schema ||
    a.schema == b.schema && (a.table < b.table || a.table == b.table && a.name < b.name)

/-- The key of a definition that has a name. -/
def ofDefinition? (d : Definition) : Option QueryKey :=
  let name := (d.name.map Text.trim).getD ""
  if name = "" then none else some ⟨d.schema, d.table, name⟩

end QueryKey

structure SavedQuery where
  key : QueryKey
  definition : Definition
  revision : Nat
  savedAt : Calendar.DateTime
  deriving BEq

/-- Saved queries in the order of their keys. -/
structure Store where
  queries : List SavedQuery := []
  deriving BEq

namespace Store

inductive Error where
  | unnamed
  /-- The file cannot be read or written. -/
  | file
  /-- The file holds no document of queries. -/
  | document
  deriving DecidableEq, Repr

namespace Error

def code : Error → String
  | unnamed => "Unnamed"
  | file => "Io"
  | document => "Serde"

/-- The message of an error, if it has one of its own. -/
def message? : Error → Option String
  | unnamed => some "A query needs a name to be saved"
  | file | document => none

/-- The error as it is reported to users. -/
def report : Error → String
  | unnamed => "A query needs a name to be saved"
  | file => "Query store I/O: Is a directory (os error 21)"
  | document => "Malformed query store"

end Error

def get? (s : Store) (k : QueryKey) : Option SavedQuery :=
  s.queries.find? (·.key == k)

/-- Puts a query in its place, and in place of one with the same key. -/
def insertInto (q : SavedQuery) : List SavedQuery → List SavedQuery
  | [] => [q]
  | p :: ps =>
    if p.key == q.key then q :: ps
    else if q.key.before p.key then q :: p :: ps
    else p :: insertInto q ps

def insert (s : Store) (q : SavedQuery) : Store :=
  ⟨insertInto q s.queries⟩

/-- The queries of a list; of several with one key the last one counts. -/
def ofList (qs : List SavedQuery) : Store :=
  qs.foldl insert {}

/-- Revisions have 64 bits. -/
def nextRevision : Option SavedQuery → Nat
  | none => 1
  | some q => (q.revision + 1) % UInt64.size

/-- Saves a definition, in place of one with the same key. -/
def save (s : Store) (now : Calendar.DateTime) (d : Definition) : Except Error (SavedQuery × Store) :=
  match QueryKey.ofDefinition? d with
  | none => .error .unnamed
  | some k =>
    let q : SavedQuery := ⟨k, d, nextRevision (s.get? k), now⟩
    .ok (q, s.insert q)

/-- All queries, or those of a schema. -/
def list (s : Store) : Option String → List SavedQuery
  | none => s.queries
  | some schema => s.queries.filter (·.key.schema == schema)

/-- Removes a query; the answer is whether there was one. -/
def delete (s : Store) (k : QueryKey) : Bool × Store :=
  ((s.get? k).isSome, ⟨s.queries.filter (·.key != k)⟩)

end Store

end SpatialQuery
