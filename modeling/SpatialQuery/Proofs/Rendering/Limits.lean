import SpatialQuery.Proofs.Limit.Fixed
import SpatialQuery.Proofs.Rendering.Checks

/-!
The limit of a statement that was written from its parts. Its own limit is the only one that is found, and
it counts its rows by a number; behind it stands at most the offset. So a limit is added where the statement
has none, and its number is lowered where it is too large (`limited_statement`).
-/

namespace SpatialQuery.Sql

open Token Lexical Validation RowLimit Fragment

/-- The pieces of a statement as they are read. -/
def Select.pieces (s : Select) : List Piece :=
  (scan [] 1 s.fragments).pieces

theorem ofChars_statement (s : Select) :
    Scan.ofChars (texts 1 s.fragments) = ⟨s.pieces, []⟩ := by
  have htrailing := trailing_scan s.expression_statement.ended [] 1
  rw [ofChars_texts isKeywordText_statementWords s.legible 1]
  calc scan [] 1 s.fragments = ⟨(scan [] 1 s.fragments).pieces, (scan [] 1 s.fragments).trailing⟩ := rfl
    _ = ⟨s.pieces, []⟩ := by rw [htrailing]; rfl

theorem tokens_pieces (s : Select) : s.pieces.map Piece.token = tokens 1 s.fragments :=
  tokens_scan [] 1 s.fragments

/-- The text of a statement has the tokens of its fragments. -/
theorem tokens_ofString (s : Select) :
    (Scan.ofString (String.ofList (texts 1 s.fragments))).tokens = tokens 1 s.fragments := by
  rw [Scan.ofString, String.toList_ofList, ofChars_statement]
  exact tokens_pieces s

theorem depth_tokens {fs : List Fragment} (h : Grouped fs) (depth index : Nat) :
    (tokens index fs).foldl depthStep depth = depth := by
  induction h generalizing depth index with
  | nil => rfl
  | @cons f fs hp hfs ih =>
    rw [tokens, List.foldl_append, ih]
    cases f with
    | symbol c =>
      rw [isParen, Bool.or_eq_false_iff, beq_eq_false_iff_ne, beq_eq_false_iff_ne] at hp
      simp [token?, depthStep, isPunct, hp.1, hp.2]
    | _ => rfl
  | @group fs gs hfs hgs ihf ihg =>
    change (openParen :: tokens index (fs ++ symbol ')' :: gs)).foldl depthStep depth = depth
    rw [tokens_append, List.foldl_cons, List.foldl_append, ihf]
    change (closeParen :: tokens _ gs).foldl depthStep (depth + 1) = depth
    rw [List.foldl_cons, ihg]
    rfl

end SpatialQuery.Sql
