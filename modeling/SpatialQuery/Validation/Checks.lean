import SpatialQuery.Policy
import SpatialQuery.Relation.Reads
import SpatialQuery.Token.Scan
import SpatialQuery.Validation.Verdict

/-!
The checks that a statement passes before its limit is looked at. `statement` finds the one statement
in a text; the others look at its tokens.
-/

namespace SpatialQuery.Validation

/-- A name of the system catalogs. -/
def isSystemCatalog (name : String) : Bool :=
  name == "pg_catalog" || name == "information_schema" || "pg_".toList.isPrefixOf name.toList

def writeKeywords : List String := [
  "INSERT", "UPDATE", "DELETE", "MERGE", "DROP", "TRUNCATE", "ALTER", "GRANT", "REVOKE", "CREATE",
  "COPY", "EXECUTE", "CALL"]

/-- Functions that change the state of the server from within a query. -/
def blockedFunctions : List String := [
  "pg_terminate_backend", "pg_cancel_backend", "pg_reload_conf", "pg_rotate_logfile", "set_config",
  "nextval", "setval", "lo_import", "lo_export", "lo_unlink", "pg_read_file", "pg_read_binary_file",
  "pg_ls_dir", "dblink", "dblink_exec"]

/-- Refuses every `UNION`, or each one that a name of a system catalog follows. -/
def checkUnion (allowed : Bool) : List Token → Except Rejection Unit
  | [] => .ok ()
  | t :: ts =>
    if t.isKeyword "union" then
      if !allowed then .error .union
      else
        match (ts.filterMap Token.name?).find? isSystemCatalog with
        | some name => .error (.unionCatalog name)
        | none => checkUnion allowed ts
    else checkUnion allowed ts

/-- The reason to refuse a token that stands before `next`. -/
def writes? (t : Token) (next : Option Token) : Option Rejection :=
  match t.name?.filter fun name => next.any (·.isPunct '(') && blockedFunctions.contains name with
  | some name => some (.blockedFunction name)
  | none =>
    match writeKeywords.find? t.isKeyword with
    | some keyword => some (.blockedKeyword keyword)
    | none =>
      if t.isKeyword "into" then some .into
      else if t.isKeyword "for" && next.any (·.isAnyKeyword ["share", "key", "no"]) then some .rowLock
      else none

/-- Refuses statements that write, lock rows or call a blocked function. -/
def checkWrites : List Token → Except Rejection Unit
  | [] => .ok ()
  | t :: ts =>
    match writes? t ts.head? with
    | some reason => .error reason
    | none => checkWrites ts

/-- The placeholders must reach exactly the number of parameters, where this number is known. -/
def checkParameters (ts : List Token) : Option Nat → Except Rejection Unit
  | none => .ok ()
  | some supplied =>
    let indices := ts.filterMap Token.placeholder?
    let highest := indices.foldl max 0
    if indices.contains 0 || highest != supplied then .error (.parameterCount highest supplied)
    else .ok ()

/-- Every relation must be on the allow-list, where there is one. -/
def checkRelations (policy : Policy) (ts : List Token) : Except Rejection Unit :=
  match policy.allowedRelations with
  | none => .ok ()
  | some list =>
    match (Relation.readBy policy.defaultSchema ts).find? (!list.allows ·) with
    | some r => .error (.relation r)
    | none => .ok ()

/-- The pieces of the only statement in a text. Comments and semicolons may stand before it and one
semicolon behind it. -/
def statement (s : Scan) : Except Rejection (List Piece) :=
  match s.located.dropWhile fun (p, _) => p.token.isComment || p.token.isPunct ';' with
  | [] => .error .empty
  | (verb, start) :: rest =>
    if !verb.token.isAnyKeyword ["select", "with"] then
      .error (.notSelect (String.ofList (Text.upperChars verb.token.text)))
    else
      -- Only now: a text that does not begin as a query is refused as such.
      match s.unclosed? with
      | some (what, offset) => .error (.unclosed what offset)
      | none =>
        let all := (verb, start) :: rest
        match all.find? fun (p, _) => p.token.isComment with
        | some (_, offset) => .error (.comment offset)
        | none =>
          let pieces := all.map Prod.fst
          match pieces.dropWhile (!·.token.isPunct ';') with
          -- A semicolon with nothing behind it stacks no statement.
          | _ :: _ :: _ => .error .stacked
          | _ => .ok (pieces.takeWhile (!·.token.isPunct ';'))

/-- All checks of the tokens of a statement. -/
def checkTokens (policy : Policy) (ts : List Token) (supplied : Option Nat) :
    Except Rejection Unit := do
  checkUnion policy.allowUnion ts
  checkWrites ts
  checkParameters ts supplied
  checkRelations policy ts

end SpatialQuery.Validation
