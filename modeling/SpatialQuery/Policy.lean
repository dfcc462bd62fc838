import SpatialQuery.Relation
import SpatialQuery.Text.Blank
import SpatialQuery.Text.Case

/-!
What an installation allows: row limits, `UNION`, and the relations that may be read.
-/

namespace SpatialQuery

/-- An entry of an allow-list, in lower case: a whole schema, or one relation. -/
inductive AllowEntry where
  | schema (name : String)
  | relation (r : Relation)
  deriving DecidableEq, Repr

structure AllowList where
  entries : List AllowEntry
  deriving DecidableEq, Repr

namespace AllowEntry

/-- Reads an entry: a schema, or a schema and a table with a dot between them. A blank text is no
entry. -/
def ofString? (s : String) : Option AllowEntry :=
  let cs := (Text.lower (Text.trim s)).toList
  if cs.isEmpty then none
  else
    match cs.dropWhile (· != '.') with
    | [] => some (.schema (String.ofList cs))
    | _ :: table => some (.relation ⟨String.ofList (cs.takeWhile (· != '.')), String.ofList table⟩)

/-- The entry covers a relation whose names are in lower case. -/
def covers : AllowEntry → Relation → Bool
  | schema name, r => name == r.schema
  | relation allowed, r => allowed == r

end AllowEntry

namespace AllowList

def ofEntries (entries : List String) : AllowList :=
  ⟨entries.filterMap AllowEntry.ofString?⟩

/-- Letter case makes no difference. -/
def allows (l : AllowList) (r : Relation) : Bool :=
  l.entries.any (·.covers ⟨Text.lower r.schema, Text.lower r.table⟩)

end AllowList

structure Policy where
  /-- The limit of statements that have none. -/
  defaultLimit : Nat := 1000
  /-- No statement may have a larger limit. -/
  maxLimit : Option Nat := none
  allowUnion : Bool := false
  /-- Without a list, every relation may be read. -/
  allowedRelations : Option AllowList := none
  /-- The schema of names without one. -/
  defaultSchema : String := Relation.publicSchema
  deriving DecidableEq, Repr

/-- The limit to give to a statement without one. -/
def Policy.limitToAdd (p : Policy) : Nat :=
  match p.maxLimit with
  | some max => min p.defaultLimit max
  | none => p.defaultLimit

/-- The limit for a statement whose own limit is computed. -/
def Policy.limitAround (p : Policy) : Nat :=
  p.maxLimit.getD p.limitToAdd

end SpatialQuery
