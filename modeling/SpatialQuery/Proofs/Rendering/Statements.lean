import SpatialQuery.Proofs.Rendering.Expressions

/-!
The fragments of a whole statement. Its clauses stand one behind the other, each with a blank and a
keyword in front (`Segment`), so the statement can be told apart and its parentheses match
(`expression_statement`). The limit has the only keyword `LIMIT`, and only the offset stands behind it
(`fragments_eq`).
-/

namespace SpatialQuery.Sql

open Fragment

/-! ## Clauses -/

/-- Clauses behind an expression. The first one, if there is one, begins with one of the words `starts`. -/
inductive Segment (starts ws : List String) : List Fragment → Prop
  | nil : Segment starts ws []
  | clause {w : String} {fs : List Fragment} :
      w ∈ starts → Expression ws (keyword w :: fs) → Segment starts ws (blank :: keyword w :: fs)

section Segment

variable {starts ws : List String} {fs gs : List Fragment}

theorem Segment.append (hf : Segment starts ws fs) (hg : Segment starts ws gs) :
    Segment starts ws (fs ++ gs) := by
  cases hf with
  | nil => exact hg
  | clause hw he =>
    cases hg with
    | nil =>
      rw [List.append_nil]
      exact .clause hw he
    | clause _ he' => exact .clause hw (he.append_blank he' fun _ => rfl)

theorem Expression.append_segment (hf : Expression ws fs) (hg : Segment starts ws gs) :
    Expression ws (fs ++ gs) := by
  cases hg with
  | nil => rwa [List.append_nil]
  | clause _ he => exact hf.append_blank he fun _ => rfl

theorem Segment.mono {vs : List String} (h : Segment starts ws fs) (hsub : ws ⊆ vs) :
    Segment starts vs fs := by
  cases h with
  | nil => exact .nil
  | clause hw he => exact .clause hw (he.mono hsub)

theorem Segment.known (h : Segment starts ws fs) : ∀ f ∈ fs, f.isKnown ws = true := by
  cases h with
  | nil => exact List.forall_mem_nil _
  | clause _ he => exact List.forall_mem_cons.2 ⟨rfl, he.known⟩

theorem Segment.grouped (h : Segment starts ws fs) : Grouped fs := by
  cases h with
  | nil => exact .nil
  | clause _ he => exact .cons rfl he.grouped

/-- A clause of keywords and what they introduce. -/
theorem segment_words {v : String} {vs : List String} (hv : v ∈ starts) (hvs : v :: vs ⊆ ws)
    (h : Expression ws fs) : Segment starts ws (blank :: words (v :: vs) ++ blank :: fs) := by
  have hclause := expression_prefixed hvs h
  cases vs with
  | nil => exact .clause hv hclause
  | cons w vs => exact .clause hv hclause

theorem segment_flatMap {α : Type} {f : α → List Fragment} {as : List α}
    (h : ∀ a ∈ as, Segment starts ws (f a)) : Segment starts ws (as.flatMap f) := by
  induction as with
  | nil => exact .nil
  | cons a as ih =>
    rw [List.forall_mem_cons] at h
    exact h.1.append (ih h.2)

theorem segment_list {v : String} {vs : List String} (hv : v ∈ starts) (hvs : v :: vs ⊆ ws)
    {items : List (List Fragment)} (h : ∀ a ∈ items, Expression ws a) :
    Segment starts ws (Select.listClause (v :: vs) items) := by
  cases items with
  | nil => exact .nil
  | cons a items => exact segment_words hv hvs (expression_commaList h)

theorem segment_number {word : String} (hw : word ∈ starts) (hws : word ∈ ws) (n : Option Nat) :
    Segment starts ws (Select.numberClause word n) := by
  cases n with
  | none => exact .nil
  | some n =>
    have hnumber : Expression ws [number n] := expression_solid rfl nofun rfl
    exact segment_words hw (List.cons_subset.2 ⟨hws, List.nil_subset ws⟩) hnumber

end Segment

/-- An expression can be told apart by itself. -/
theorem Expression.legible {ws : List String} {fs : List Fragment} (h : Expression ws fs) : Legible ws fs := by
  have hapart := h.apart [] apart_nil rfl
  rw [List.append_nil] at hapart
  exact ⟨h.known, hapart⟩

/-! ## The parts of a statement -/

/-- The words around the relations of a statement. -/
def relationWords : List String :=
  ["SELECT", "FROM", "JOIN", "INNER", "LEFT", "RIGHT", "FULL", "OUTER", "CROSS"]

/-- The words in front of the limit. -/
def bodyWords : List String :=
  relationWords ++ expressionWords

/-- The words behind the relations. -/
def clauseWords : List String :=
  "LIMIT" :: expressionWords

def statementWords : List String :=
  "LIMIT" :: bodyWords

/-- The words that begin a clause behind the relations. -/
def clauseStarts : List String :=
  ["WHERE", "GROUP", "ORDER", "LIMIT", "OFFSET"]

def joinStarts : List String :=
  ["INNER", "LEFT", "RIGHT", "FULL", "CROSS"]

theorem itemWords_subset : itemWords ⊆ expressionWords :=
  List.subset_append_left _ _

theorem expressionWords_subset : expressionWords ⊆ bodyWords :=
  List.subset_append_right _ _

theorem bodyWords_subset : bodyWords ⊆ statementWords :=
  List.subset_cons_self _ _

theorem clauseWords_subset : clauseWords ⊆ statementWords :=
  List.cons_subset_cons _ expressionWords_subset

theorem isKeywordText_statementWords : ∀ w ∈ statementWords, isKeywordText w.toList = true := by
  decide

/-- A condition with the keyword in front of it. -/
def conditionClause (word : String) : Option Predicate → List Fragment
  | some p => blank :: keyword word :: blank :: p.fragments
  | none => []

theorem segment_condition {starts : List String} {word : String} (hstart : word ∈ starts)
    (hword : word ∈ expressionWords) (condition : Option Predicate) :
    Segment starts expressionWords (conditionClause word condition) := by
  cases condition with
  | none => exact .nil
  | some p =>
    exact segment_words hstart (List.cons_subset.2 ⟨hword, List.nil_subset _⟩) (expression_predicate p)

theorem Join.fragments_eq (j : Join) : j.fragments =
    words j.kind.words ++ blank :: j.source.fragments ++ conditionClause "ON" j.condition := by
  rw [Join.fragments]
  cases j.condition <;> rfl

theorem segment_join (j : Join) : Segment joinStarts bodyWords (blank :: j.fragments) := by
  have hcondition := segment_condition (List.mem_singleton_self "ON") (by decide) j.condition
  have hsource := (expression_source j.source).append_segment hcondition
  have hbody := hsource.mono expressionWords_subset
  rw [Join.fragments_eq, List.append_assoc, List.cons_append]
  cases j.kind with
  | inner => exact segment_words (v := "INNER") (by decide) (by decide) hbody
  | left => exact segment_words (v := "LEFT") (by decide) (by decide) hbody
  | right => exact segment_words (v := "RIGHT") (by decide) (by decide) hbody
  | fullOuter => exact segment_words (v := "FULL") (by decide) (by decide) hbody
  | cross => exact segment_words (v := "CROSS") (by decide) (by decide) hbody

namespace Select

/-- What stands between `SELECT` and `FROM`, without the blanks next to them. -/
def list (s : Select) : List Fragment :=
  (if s.distinct then [keyword "DISTINCT", blank] else []) ++
    if s.items.isEmpty then [symbol '*'] else commaList (s.items.map (·.fragments))

def joinFragments (s : Select) : List Fragment :=
  s.joins.flatMap fun j => blank :: j.fragments

/-- The clauses between the relations and the limit. -/
def clauses (s : Select) : List Fragment :=
  conditionClause "WHERE" s.condition ++
    (listClause ["GROUP", "BY"] (s.groupBy.map (·.fragments)) ++
      listClause ["ORDER", "BY"] (s.orderBy.map (·.fragments)))

/-- The clauses from the limit on. -/
def bounds (s : Select) : List Fragment :=
  numberClause "LIMIT" s.limit ++ numberClause "OFFSET" s.offset

/-- The statement up to its relations. -/
def opening (s : Select) : List Fragment :=
  keyword "SELECT" :: blank :: (s.list ++ blank :: keyword "FROM" :: blank :: s.source.fragments)

/-- The statement up to its limit. -/
def body (s : Select) : List Fragment :=
  s.opening ++ (s.joinFragments ++ s.clauses)

theorem fragments_eq (s : Select) : s.fragments = s.body ++ s.bounds := by
  simp only [fragments, body, opening, list, joinFragments, clauses, bounds, List.append_assoc,
    List.cons_append]
  cases s.condition <;> rfl

theorem expression_list (s : Select) : Expression itemWords s.list := by
  have hstar : Expression itemWords [symbol '*'] := expression_dotted [] (.inl rfl)
  have hitems : Expression itemWords
      (if s.items.isEmpty then [symbol '*'] else commaList (s.items.map (·.fragments))) := by
    have hall := forall_expression_map expression_item s.items
    cases hs : s.items with
    | nil => exact hstar
    | cons i items =>
      rw [hs] at hall
      exact expression_commaList hall
  rw [list]
  cases s.distinct with
  | false => exact hitems
  | true => exact expression_introduced (by decide) hitems

theorem segment_clauses (s : Select) : Segment clauseStarts expressionWords s.clauses := by
  have hwhere : Segment clauseStarts expressionWords (conditionClause "WHERE" s.condition) :=
    segment_condition (by decide) (by decide) s.condition
  have hgroup : Segment clauseStarts expressionWords (listClause ["GROUP", "BY"] (s.groupBy.map (·.fragments))) :=
    segment_list (by decide) (by decide) (forall_expression_map expression_column s.groupBy)
  have horder : Segment clauseStarts expressionWords (listClause ["ORDER", "BY"] (s.orderBy.map (·.fragments))) :=
    segment_list (by decide) (by decide) (forall_expression_map expression_order s.orderBy)
  exact hwhere.append (hgroup.append horder)

theorem segment_bounds (s : Select) : Segment clauseStarts clauseWords s.bounds :=
  (segment_number (by decide) (by decide) s.limit).append (segment_number (by decide) (by decide) s.offset)

/-- What stands behind the relations is a clause, or nothing. -/
theorem segment_behind (s : Select) : Segment clauseStarts clauseWords (s.clauses ++ s.bounds) :=
  (s.segment_clauses.mono (List.subset_cons_self _ _)).append s.segment_bounds

theorem segment_joins (s : Select) : Segment joinStarts bodyWords s.joinFragments :=
  segment_flatMap fun j _ => segment_join j

theorem expression_opening (s : Select) : Expression bodyWords s.opening := by
  have hsource := (expression_source s.source).mono expressionWords_subset
  have hlist := (s.expression_list.mono itemWords_subset).mono expressionWords_subset
  have hfrom : Expression bodyWords (keyword "FROM" :: blank :: s.source.fragments) :=
    expression_introduced (by decide) hsource
  exact expression_introduced (by decide) (hlist.append_blank hfrom fun _ => rfl)

theorem expression_body (s : Select) : Expression bodyWords s.body := by
  have hclauses := s.segment_clauses.mono expressionWords_subset
  rw [body, ← List.append_assoc]
  exact (s.expression_opening.append_segment s.segment_joins).append_segment hclauses

/-- The whole statement can be told apart, and its parentheses match. -/
theorem expression_statement (s : Select) : Expression statementWords s.fragments := by
  rw [fragments_eq]
  exact (s.expression_body.mono bodyWords_subset).append_segment (s.segment_bounds.mono clauseWords_subset)

theorem legible (s : Select) : Legible statementWords s.fragments :=
  s.expression_statement.legible

end Select

end SpatialQuery.Sql
