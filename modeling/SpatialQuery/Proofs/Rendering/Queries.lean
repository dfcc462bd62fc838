import SpatialQuery.Proofs.Query.Reported
import SpatialQuery.Proofs.Rendering.Statements

/-!
The syntax tree of a statement that was written from its parts. Names in quotes are never taken for
keywords, so the tree has the tables of the statement and no others, and the search for relations comes
upon each of them (`exists_query`).
-/

namespace SpatialQuery.Sql

open Token Lexical Reads Query Fragment

/-! ## Tokens of names and keywords -/

/-- A name without quotes inside is the name that it is written for. -/
theorem undouble_of_not_mem {q : Char} {cs : List Char} (h : q ∉ cs) : Text.undouble q cs = cs := by
  fun_induction Text.undouble q cs with
  | case1 a b cs hq ih =>
    rw [Bool.and_eq_true, beq_iff_eq, beq_iff_eq] at hq
    simp [hq.1] at h
  | case2 a b cs hq ih => rw [ih fun hb => h (List.mem_cons_of_mem a hb)]
  | case3 cs => rfl

def nameToken (i : Identifier) : Token :=
  ⟨.quotedIdentifier, '"' :: i.name.toList ++ ['"']⟩

theorem name?_nameToken (i : Identifier) : (nameToken i).name? = some i.name := by
  have hinside : (('"' :: i.name.toList ++ ['"']).drop 1).dropLast = i.name.toList := by
    simp
  have hquote : '"' ∉ i.name.toList := not_mem_name i rfl
  simp [Token.name?, nameToken, undouble_of_not_mem hquote]

/-- The words in front of `JOIN`. -/
def kindTree : SpatialQuery.JoinKind → Query.JoinKind
  | .inner => ⟨[⟨⟨.word, "INNER".toList⟩, rfl⟩], by simp; rfl⟩
  | .left => ⟨[⟨⟨.word, "LEFT".toList⟩, rfl⟩], by simp; rfl⟩
  | .right => ⟨[⟨⟨.word, "RIGHT".toList⟩, rfl⟩], by simp; rfl⟩
  | .fullOuter => ⟨[⟨⟨.word, "FULL".toList⟩, rfl⟩, ⟨⟨.word, "OUTER".toList⟩, rfl⟩], by simp; rfl⟩
  | .cross => ⟨[⟨⟨.word, "CROSS".toList⟩, rfl⟩], by simp; rfl⟩

def joinKeyword : Query.Keyword ["join"] :=
  ⟨⟨.word, "JOIN".toList⟩, rfl⟩

theorem tokens_kind (k : SpatialQuery.JoinKind) (index : Nat) : tokens index (blank :: words k.words) =
    keywordTokens (kindTree k).words ++ [joinKeyword.token] := by
  cases k <;> rfl

def selectKeyword : Query.Keyword ["select"] :=
  ⟨⟨.word, "SELECT".toList⟩, rfl⟩

def fromKeyword : Query.Keyword ["from"] :=
  ⟨⟨.word, "FROM".toList⟩, rfl⟩

end SpatialQuery.Sql
