import SpatialQuery.Token.Scan
import SpatialQuery.Validation
import SpatialQuery.View.Error

/-!
The text of a view: the placeholders of a statement are replaced by references to parameters, so that
no value becomes part of the text.
-/

namespace SpatialQuery.View

/-- The parameters for values, the first of which belongs to the placeholder with a number. -/
def parametersFrom (number : Nat) : List Value → Except Flaw (List ViewParameter)
  | [] => .ok []
  | v :: vs =>
    if (ParameterKind.ofValue v).accepts v.asText then
      (parametersFrom (number + 1) vs).map (ViewParameter.ofValue number v :: ·)
    else .error (.value v.display number)

/-- A reference as it stands in the text. Texts stand in quotes, and numbers in parentheses: a minus
sign in front of a negative number would start a comment. -/
def referenceText (p : ViewParameter) : List Char :=
  match p.kind with
  | .text => '\'' :: p.reference.toList ++ ['\'']
  | .integer | .float => '(' :: p.reference.toList ++ [')']
  | .boolean => p.reference.toList

/-- The text holds another one. -/
def hasInfix (part : List Char) : List Char → Bool
  | [] => part.isEmpty
  | c :: cs => part.isPrefixOf (c :: cs) || hasInfix part cs

/-- The text of a token in the view. -/
def tokenText (ps : List ViewParameter) (t : Token) : Except Flaw (List Char) :=
  match t.kind with
  | .placeholder number =>
    match number with
    | 0 => .error (.unbound 0)
    | n + 1 =>
      match ps[n]? with
      | some p => .ok (referenceText p)
      | none => .error (.unbound number)
  | .stringLiteral | .quotedIdentifier =>
    match ps.find? fun p => hasInfix p.reference.toList t.text with
    | some p => .error (.referenceInside (String.ofList t.text) p.reference)
    | none => .ok t.text
  | _ => .ok t.text

def pieceText (ps : List ViewParameter) (p : Piece) : Except Flaw (List Char) :=
  (tokenText ps p.token).map (p.blanks ++ ·)

/-- The text of a view and its parameters. -/
def template (sql : String) (values : List Value) : Except Flaw (String × List ViewParameter) := do
  let s := Scan.ofString sql
  -- Behind the opening of such a construct, placeholders cannot be told from text.
  if let some (what, offset) := s.unclosed? then throw (.unclosed what offset)
  let ps ← parametersFrom 1 values
  let texts ← s.pieces.mapM (pieceText ps)
  return (String.ofList (texts.flatten ++ s.trailing), ps)

/-- The view of a statement. -/
def ofStatement (id : ViewId) (v : Validated) (geometry : Option Geometry.Column)
    (keyColumn : Option String) : Except PublishError View :=
  match geometry with
  | none => .error .missingGeometry
  | some g =>
    match template v.statement.sql v.statement.parameters with
    | .error f => .error (.invalid f)
    | .ok (sql, ps) => .ok ⟨id, sql, ps, g, keyColumn⟩

end SpatialQuery.View
