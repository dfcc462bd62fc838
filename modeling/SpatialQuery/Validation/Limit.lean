import SpatialQuery.Policy
import SpatialQuery.Text.Integer
import SpatialQuery.Token.Scan
import SpatialQuery.Validation.Verdict

/-!
The row limit of a statement: finding it, and rewriting the statement where it is missing, too large,
or not known before the statement runs.
-/

namespace SpatialQuery.Validation

/-- The `LIMIT` or `FETCH` clause of a statement. `before`, `count` and `behind` are the pieces of the
whole statement. -/
inductive LimitClause where
  /-- `LIMIT ALL` or `LIMIT NULL`. -/
  | all (before : List Piece) (count : Piece) (behind : List Piece)
  /-- A number that ends the count. -/
  | literal (before : List Piece) (count : Piece) (behind : List Piece)
  /-- `FETCH FIRST ROW`. -/
  | singleRow
  /-- Any other count. -/
  | computed
  deriving DecidableEq, Repr

/-- The same clause in the statement that has one more piece in front. -/
def LimitClause.cons (p : Piece) : LimitClause → LimitClause
  | all before count behind => all (p :: before) count behind
  | literal before count behind => literal (p :: before) count behind
  | singleRow => singleRow
  | computed => computed

/-- A count ends before the next clause, or at the end of the statement. -/
def endsCount : List Piece → Bool
  | [] => true
  | p :: _ => p.token.isAnyKeyword ["offset", "for"] || p.token.isPunct ')'

/-- The clause of the keyword `LIMIT` in `p`. -/
def limitClause (p : Piece) : List Piece → LimitClause
  | count :: behind =>
    if count.token.isAnyKeyword ["all", "null"] then .all [p] count behind
    else if count.token.isNumber && endsCount behind then .literal [p] count behind
    else .computed
  | [] => .computed

/-- The clause of the keyword `FETCH` in `p`, which `FIRST` or `NEXT` follows. -/
def fetchClause (p : Piece) : List Piece → LimitClause
  | first :: count :: behind =>
    if count.token.isAnyKeyword ["row", "rows"] then .singleRow
    else if count.token.isNumber && behind.head?.any (·.token.isAnyKeyword ["row", "rows"]) then
      .literal [p, first] count behind
    else .computed
  | _ => .computed

/-- The first limit outside of all parentheses, of which `depth` are open. -/
def findLimit : Nat → List Piece → Option LimitClause
  | _, [] => none
  | depth, p :: ps =>
    if p.token.isPunct '(' then (findLimit (depth + 1) ps).map (.cons p)
    else if p.token.isPunct ')' then (findLimit (depth - 1) ps).map (.cons p)
    else if depth == 0 && p.token.isKeyword "limit" then some (limitClause p ps)
    else if depth == 0 && p.token.isKeyword "fetch" then some (fetchClause p ps)
    else (findLimit depth ps).map (.cons p)

/-- The text of a statement: the blanks in front of it do not belong to it. -/
def statementText : List Piece → List Char
  | [] => []
  | p :: ps => p.token.text ++ ps.flatMap Piece.text

/-- The statement with a number in the place of its count. -/
def withCount (before : List Piece) (count : Piece) (behind : List Piece) (n : Nat) : List Char :=
  statementText before ++ count.blanks ++ Text.ofNat n ++ behind.flatMap Piece.text

/-- The statement as a subquery of one with a limit. -/
def wrapped (label : String) (statement : List Char) (limit : Nat) : List Char :=
  "SELECT * FROM (".toList ++ statement ++ ") AS ".toList ++ Text.quote '"' label.toList ++
    " LIMIT ".toList ++ Text.ofNat limit

/-- The text to run, and what was changed to get it. -/
def boundRows (policy : Policy) (pieces : List Piece) : List Char × Option LimitChange :=
  let text := statementText pieces
  let limit := policy.limitToAdd
  match findLimit 0 pieces with
  | none => (text ++ " LIMIT ".toList ++ Text.ofNat limit, some (.appended limit))
  | some (.all before count behind) =>
    (withCount before count behind limit,
      some (.replaced (String.ofList (Text.upperChars count.token.text)) limit))
  -- What the count comes to is not known here, so the limit goes around the statement.
  | some .computed =>
    let limit := policy.limitAround
    (wrapped "geoview_limited" text limit, some (.bounded limit))
  | some .singleRow => (text, none)
  | some (.literal before count behind) =>
    match Text.readNat64 count.token.text, policy.maxLimit with
    | .ok n, some max =>
      if max < n then (withCount before count behind max, some (.lowered n max)) else (text, none)
    | _, _ => (text, none)

end SpatialQuery.Validation
