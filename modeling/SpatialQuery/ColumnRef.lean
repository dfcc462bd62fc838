import SpatialQuery.Identifier

/-!
References to columns, as definitions write them: `column`, `relation.column`,
`schema.relation.column`, and the same with `*` in place of the column.
-/

namespace SpatialQuery

structure ColumnRef where
  qualifier : List Identifier
  /-- `none` stands for all columns. -/
  column : Option Identifier
  deriving DecidableEq, Repr

namespace ColumnRef

def isWildcard (c : ColumnRef) : Bool :=
  c.column.isNone

/-- The parts between the dots. -/
def parts (s : String) : List String :=
  (s.toList.splitOn '.').map String.ofList

/-- Reads the parts of a qualifier up to the first one that is no name. -/
def readQualifier : List String → Except String (List Identifier)
  | [] => .ok []
  | p :: ps =>
    match Identifier.ofString? p with
    | none => .error p
    | some i => (readQualifier ps).map (i :: ·)

def readColumn (s : String) : Except String (Option Identifier) :=
  if Text.trim s = "*" then .ok none
  else
    match Identifier.ofString? s with
    | none => .error s
    | some i => .ok (some i)

/-- Reads a reference. The error is the text that is no name. -/
def read (s : String) : Except String ColumnRef :=
  let ps := parts (Text.trim s)
  if 3 < ps.length then .error s
  else
    match readQualifier ps.dropLast with
    | .error p => .error p
    | .ok qualifier => (readColumn (ps.getLastD "")).map fun column => ⟨qualifier, column⟩

end ColumnRef

end SpatialQuery
