import SpatialQuery.Proofs.Query.Reported

/-!
Queries whose `FROM` lists are read to their ends. Of these, the tables are reported that they name and
that no `WITH` clause in scope defines, each as often as it is named (`readBy_perm_relations`).
-/

namespace SpatialQuery.Query

open Token Lexical Reads

/-- The columns break off behind the word `DISTINCT`, as those of no query do. -/
def breaksOff (columns : List Token) : Bool :=
  columns.getLast?.any (·.isKeyword "distinct")

theorem isDistinctFrom_reverse {columns : List Token} (h : breaksOff columns = false) :
    isDistinctFrom columns.reverse = false := by
  have hlast : columns.reverse.head?.any (·.isKeyword "distinct") = false := by
    rwa [List.head?_reverse]
  match hts : columns.reverse with
  | [] | [_] => rfl
  | t :: u :: ts =>
    rw [hts] at hlast
    have ht : t.isKeyword "distinct" = false := hlast
    rw [isDistinctFrom, ht, Bool.false_and]

namespace Tree

/-- A table is named at the front, or the list of items goes on. -/
def lists : {p : Part} → Tree p → Bool
  | _, table _ _ _ => true
  | _, comma _ _ => true
  | _, join _ _ _ _ rest => rest.lists
  | _, _ => false

/-- The items of each `FROM` list stand between commas, and joins come last. No items are joined in
parentheses. -/
def simple : {p : Part} → Tree p → Bool
  | _, done | _, noColumns | _, noLabel | _, noClause | _, stop => true
  | _, word _ rest | _, distinct _ _ _ rest | _, zone _ _ _ rest | _, argument _ rest => rest.simple
  | _, group inner rest => inner.simple && rest.simple
  | _, subquery q rest => q.simple && rest.simple
  | _, columns inner => inner.simple
  | _, label _ _ _ cs => cs.simple
  | _, table _ _ l => l.simple
  | _, call _ _ args l => args.simple && l.simple
  | _, derived _ q l => q.simple && l.simple
  | _, nested _ _ _ => false
  | _, clause _ e => e.simple
  | _, join _ _ right condition rest =>
    right.simple && (condition.simple && (rest.simple && !rest.lists))
  | _, comma next rest => next.simple && rest.simple
  | _, select _ list => list.simple
  | _, selectFrom _ list _ first more clauses =>
    !breaksOff list.tokens &&
      (list.simple && (first.simple && (more.simple && clauses.simple)))
  | _, operand q clauses => q.simple && clauses.simple
  | _, combined left _ _ right => left.simple && right.simple
  | _, last _ cs q body => cs.simple && (q.simple && body.simple)
  | _, define _ cs q rest => cs.simple && (q.simple && rest.simple)
  | _, plain body => body.simple
  | _, withNames _ ds => ds.simple
  | _, withRecursive _ _ ds => ds.simple

/-- The search looks at the front of the part, if a list stands there. -/
def Looked (seen : Bool) {p : Part} (t : Tree p) : Prop :=
  match p with
  | .item | .more _ => t.lists = true → seen = true
  | _ => True

/-- Wherever such a query names a table, the search looks. -/
theorem simple_seen {p : Part} (t : Tree p) (h : t.simple = true) (n : Nat) (scope : List String)
    {seen : Bool} (hseen : t.Looked seen) : ∀ o ∈ t.occurrences n scope seen, o.seen = true := by
  induction t generalizing n scope seen with
  | done | noColumns | noLabel | noClause | stop => exact nofun
  | word _ _ ih | distinct _ _ _ _ ih | zone _ _ _ _ ih | argument _ _ ih | columns _ ih
  | label _ _ _ _ ih | clause _ _ ih | select _ _ ih | plain _ ih | withNames _ _ ih
  | withRecursive _ _ _ ih => exact ih h _ _ trivial
  | group _ _ ihi ih | subquery _ _ ihi ih | call _ _ _ _ ihi ih | derived _ _ _ ihi ih
  | operand _ _ ihi ih | combined _ _ _ _ ihi ih =>
    rw [simple, Bool.and_eq_true] at h
    rw [occurrences]
    exact List.forall_mem_append.2 ⟨ihi h.1 _ _ trivial, ih h.2 _ _ trivial⟩
  | last _ _ _ _ ihc ihq ih | define _ _ _ _ ihc ihq ih =>
    simp only [simple, Bool.and_eq_true] at h
    simp only [occurrences, List.forall_mem_append]
    exact ⟨ihc h.1 _ _ trivial, ihq h.2.1 _ _ trivial, ih h.2.2 _ _ trivial⟩
  | nested => exact absurd h Bool.false_ne_true
  | table _ _ _ ih =>
    rw [occurrences]
    exact List.forall_mem_cons.2 ⟨hseen rfl, ih h _ _ trivial⟩
  | comma _ _ ihn ih =>
    rw [simple, Bool.and_eq_true] at h
    have hlooked : seen = true := hseen rfl
    rw [occurrences]
    exact List.forall_mem_append.2
      ⟨ihn h.1 _ _ fun _ => hlooked, ih h.2 _ _ fun _ => hlooked⟩
  | join _ _ _ _ rest ihr ihc ih =>
    simp only [simple, Bool.and_eq_true, Bool.not_eq_true'] at h
    obtain ⟨hright, hcondition, hrest, hlast⟩ := h
    simp only [occurrences, List.forall_mem_append]
    have hnone : rest.Looked false := fun hl => absurd (hlast.symm.trans hl) Bool.false_ne_true
    exact ⟨ihr hright _ _ fun _ => rfl, ihc hcondition _ _ trivial, ih hrest _ _ hnone⟩
  | selectFrom _ list _ _ _ _ ihl ihf ihm ih =>
    simp only [simple, Bool.and_eq_true, Bool.not_eq_true'] at h
    obtain ⟨hbreaks, hlist, hfirst, hmore, hclauses⟩ := h
    have hread : (!isDistinctFrom list.tokens.reverse) = true := by
      rw [isDistinctFrom_reverse hbreaks, Bool.not_false]
    simp only [occurrences, List.forall_mem_append]
    exact ⟨ihl hlist _ _ trivial, ihf hfirst _ _ fun _ => hread, ihm hmore _ _ fun _ => hread,
      ih hclauses _ _ trivial⟩

theorem seenRelations_simple {q : Tree .query} (h : q.simple = true) (defaultSchema : String) :
    q.seenRelations defaultSchema = q.relations defaultSchema := by
  rw [seenRelations, relations, List.filter_eq_self.2 (simple_seen q h 0 [] trivial)]

end Tree

/-- The relations that are reported are the tables that no `WITH` clause in scope defines, each as
often as it is named. -/
theorem readBy_perm_relations (q : Tree .query) (h : q.simple = true) (defaultSchema : String) :
    (Relation.readBy defaultSchema q.tokens).Perm (q.relations defaultSchema) := by
  rw [← Tree.seenRelations_simple h]
  exact readBy_perm q defaultSchema

/-! ## A name that is defined in a parenthesised query -/

def quotedIdent (s : String) (h : (Token.mk .quotedIdentifier s.toList).isAnyKeyword reserved = false)
    (hname : (Token.mk .quotedIdentifier s.toList).name?.isSome = true) : Ident :=
  ⟨⟨.quotedIdentifier, s.toList⟩, hname, h⟩

def tableQuoted (s : String) (h : (Token.mk .quotedIdentifier s.toList).isAnyKeyword reserved = false)
    (hname : (Token.mk .quotedIdentifier s.toList).name?.isSome = true) : Tree .item :=
  .table [] ⟨quotedIdent s h hname, []⟩ .noLabel

/-- The name hides the table inside of the parentheses, and only there. -/
theorem readBy_perm_relations_hidden :
    let sql := "SELECT * FROM \"countries\", (WITH \"users\" AS (SELECT 1) SELECT * FROM \"users\") " ++
      "AS \"s\", \"users\""
    let selectAll (first : Tree .item) (more : Tree (.more true)) : Tree .body :=
      .selectFrom ⟨wordToken "SELECT", rfl⟩ (.word ⟨⟨.punct '*', ['*']⟩, rfl⟩ .done)
        ⟨wordToken "FROM", rfl⟩ first more .noClause
    let ownUsers : Tree .query := .withNames ⟨wordToken "WITH", rfl⟩
      (.last ⟨quotedIdent "\"users\"" rfl rfl, rfl, ⟨wordToken "AS", rfl⟩, [], [], by decide⟩ .noColumns
        (.plain (.select ⟨wordToken "SELECT", rfl⟩ (.word ⟨⟨.number, ['1']⟩, rfl⟩ .done)))
        (selectAll (tableQuoted "\"users\"" rfl rfl) .stop))
    let q : Tree .query := .plain (selectAll (tableQuoted "\"countries\"" rfl rfl)
      (.comma (.derived [] ownUsers (.label [⟨wordToken "AS", rfl⟩] (by decide)
          (quotedIdent "\"s\"" rfl rfl) .noColumns))
        (.comma (tableQuoted "\"users\"" rfl rfl) .stop)))
    Spells sql q ∧ q.simple = true ∧
      (Relation.readBy "public" q.tokens).Perm [⟨"public", "countries"⟩, ⟨"public", "users"⟩] := by
  intro sql selectAll ownUsers q
  have hscan : Scan.ofString sql = scanWithin 120 sql.toList := ofChars_eq_scanWithin 120 (by decide)
  have hspells : Spells sql q := by
    refine ⟨(scanWithin 120 sql.toList).pieces, ?_⟩
    rw [hscan]
    decide +kernel
  have hsimple : q.simple = true := by decide +kernel
  have hrelations : q.relations "public" = [⟨"public", "countries"⟩, ⟨"public", "users"⟩] := by
    decide +kernel
  have h := readBy_perm_relations q hsimple "public"
  rw [hrelations] at h
  exact ⟨hspells, hsimple, h⟩

end SpatialQuery.Query
