import SpatialQuery.Store.Document

/-!
Stores in files. Every change reads the document and writes it anew.
-/

namespace SpatialQuery.Store

/-- What is at the path of a store. -/
inductive File where
  | missing
  /-- A directory, or another thing that has no text. -/
  | unreadable
  | text (content : String)
  deriving DecidableEq, Repr

namespace File

/-- The store in a file; a missing file holds an empty one. -/
def load : File → Except Error Store
  | missing => .ok {}
  | unreadable => .error .file
  | text content =>
    match ofDocument? content with
    | some s => .ok s
    | none => .error .document

/-- The file of a store. -/
def ofStore (s : Store) : File :=
  text s.document

def save (f : File) (now : Calendar.DateTime) (d : Definition) : Except Error (SavedQuery × File) := do
  let (q, s) ← (← f.load).save now d
  return (q, ofStore s)

def list (f : File) (schema : Option String) : Except Error (List SavedQuery) := do
  return (← f.load).list schema

def get? (f : File) (k : QueryKey) : Except Error (Option SavedQuery) := do
  return (← f.load).get? k

/-- Removes a query. The file is written even if there was none. -/
def delete (f : File) (k : QueryKey) : Except Error (Bool × File) := do
  let (found, s) := (← f.load).delete k
  return (found, ofStore s)

end File

end SpatialQuery.Store
