import SpatialQuery.Proofs.Query.Syntax

/-!
The names of tables in a query. Each one stands in the scope of some `WITH` clauses, and it is either
one that the search for relations looks at or one that it passes over: a name at the front of joined
items in parentheses, one behind a comma behind a join, and one in a `FROM` list that is taken for the
end of `IS DISTINCT FROM`.
-/

namespace SpatialQuery.Query

open Token Lexical Reads

/-- The name of a table in a query. -/
structure Occurrence where
  mention : Mention
  /-- The names that are defined where the table is named. -/
  scope : List String
  /-- The search looks here. -/
  seen : Bool

/-- The relation that is read, unless the name is one of a `WITH` clause. -/
def Occurrence.relation? (defaultSchema : String) (o : Occurrence) : Option Relation :=
  match o.mention.schema with
  | some schema => some ⟨schema, o.mention.table⟩
  | none => if o.mention.table ∈ o.scope then none else some ⟨defaultSchema, o.mention.table⟩

/-- The name as it is mentioned with so many tokens behind it. -/
def Name.mention (n : Name) (behind : Nat) : Mention :=
  Reads.mention n.first.name (n.others.map Ident.name) (n.tokens.length + behind)

namespace Tree

/-- The names of tables, with `behind` tokens behind the tree. `seen` says of the items at its front
whether the search looks at them. -/
def occurrences : {p : Part} → Tree p → (behind : Nat) → (scope : List String) → (seen : Bool) →
    List Occurrence
  | _, done, _, _, _ => []
  | _, word _ rest, n, s, _ => rest.occurrences n s false
  | _, distinct _ _ _ rest, n, s, _ => rest.occurrences n s false
  | _, zone _ _ _ rest, n, s, _ => rest.occurrences n s false
  | _, argument _ rest, n, s, _ => rest.occurrences n s false
  | _, group inner rest, n, s, _ =>
    inner.occurrences (rest.size + n + 1) s false ++ rest.occurrences n s false
  | _, subquery q rest, n, s, _ =>
    q.occurrences (rest.size + n + 1) s false ++ rest.occurrences n s false
  | _, noColumns, _, _, _ => []
  | _, columns inner, n, s, _ => inner.occurrences (n + 1) s false
  | _, noLabel, _, _, _ => []
  | _, label _ _ _ cs, n, s, _ => cs.occurrences n s false
  | _, table _ name l, n, s, seen =>
    ⟨name.mention (l.size + n), s, seen⟩ :: l.occurrences n s false
  | _, call _ _ args l, n, s, _ =>
    args.occurrences (l.size + n + 1) s false ++ l.occurrences n s false
  | _, derived _ q l, n, s, _ => q.occurrences (l.size + n + 1) s false ++ l.occurrences n s false
  | _, nested first joins l, n, s, _ =>
    first.occurrences (joins.size + (l.size + n + 1)) s false ++
      (joins.occurrences (l.size + n + 1) s false ++ l.occurrences n s false)
  | _, noClause, _, _, _ => []
  | _, clause _ e, n, s, _ => e.occurrences n s false
  | _, stop, _, _, _ => []
  | _, join _ _ right condition rest, n, s, _ =>
    right.occurrences (condition.size + (rest.size + n)) s true ++
      (condition.occurrences (rest.size + n) s false ++ rest.occurrences n s false)
  | _, comma next rest, n, s, seen =>
    next.occurrences (rest.size + n) s seen ++ rest.occurrences n s seen
  | _, select _ list, n, s, _ => list.occurrences n s false
  | _, selectFrom _ list _ first more clauses, n, s, _ =>
    let read := !isDistinctFrom list.tokens.reverse
    list.occurrences (first.size + (more.size + (clauses.size + n)) + 1) s false ++
      (first.occurrences (more.size + (clauses.size + n)) s read ++
        (more.occurrences (clauses.size + n) s read ++ clauses.occurrences n s false))
  | _, operand q clauses, n, s, _ =>
    q.occurrences (clauses.size + n + 1) s false ++ clauses.occurrences n s false
  | _, combined left _ mode right, n, s, _ =>
    left.occurrences (mode.length + (right.size + n) + 1) s false ++ right.occurrences n s false
  | _, @last r d cs q body, n, s, _ =>
    let inside := if r then d.name.name :: s else s
    cs.occurrences (d.words.length + (q.size + (body.size + n + 1) + 1)) inside false ++
      (q.occurrences (body.size + n + 1) inside false ++
        body.occurrences n (d.name.name :: s) false)
  | _, @define r d cs q rest, n, s, _ =>
    let inside := if r then d.name.name :: s else s
    cs.occurrences (d.words.length + (q.size + (rest.size + n + 1 + 1) + 1)) inside false ++
      (q.occurrences (rest.size + n + 1 + 1) inside false ++
        rest.occurrences n (d.name.name :: s) false)
  | _, plain body, n, s, _ => body.occurrences n s false
  | _, withNames _ ds, n, s, _ => ds.occurrences n s false
  | _, withRecursive _ _ ds, n, s, _ => ds.occurrences n s false

/-- The relations that a query reads: the tables that it names and that no `WITH` clause in scope
defines. -/
def relations (q : Tree .query) (defaultSchema : String) : List Relation :=
  (q.occurrences 0 [] false).filterMap (·.relation? defaultSchema)

/-- The relations read where the search looks. -/
def seenRelations (q : Tree .query) (defaultSchema : String) : List Relation :=
  ((q.occurrences 0 [] false).filter (·.seen)).filterMap (·.relation? defaultSchema)

/-- The relations read where the search does not look. -/
def unseenRelations (q : Tree .query) (defaultSchema : String) : List Relation :=
  ((q.occurrences 0 [] false).filter (!·.seen)).filterMap (·.relation? defaultSchema)

theorem mem_relations {q : Tree .query} {defaultSchema : String} {r : Relation} :
    r ∈ q.relations defaultSchema ↔
      r ∈ q.seenRelations defaultSchema ∨ r ∈ q.unseenRelations defaultSchema := by
  simp only [relations, seenRelations, unseenRelations, List.mem_filterMap, List.mem_filter]
  constructor
  · rintro ⟨o, ho, hr⟩
    cases hs : o.seen with
    | true => exact .inl ⟨o, ⟨ho, hs⟩, hr⟩
    | false => exact .inr ⟨o, ⟨ho, by rw [hs]; rfl⟩, hr⟩
  · rintro (⟨o, ⟨ho, -⟩, hr⟩ | ⟨o, ⟨ho, -⟩, hr⟩)
    · exact ⟨o, ho, hr⟩
    · exact ⟨o, ho, hr⟩

end Tree

end SpatialQuery.Query
