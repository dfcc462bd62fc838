import Mathlib.Data.List.Basic
import SpatialQuery.Proofs.Checks.ReadOnly
import SpatialQuery.Proofs.Query.Scopes
import SpatialQuery.Proofs.Query.Search

/-!
Which of the relations that a query reads are reported, and so checked against an allow-list: those
that are read where the search looks (`readBy_perm`).
-/

namespace SpatialQuery.Query

open Token Lexical Reads Validation

/-- The search comes upon the tables that are named where it looks, and upon each as often as it is named. -/
theorem Tree.mentions_perm (q : Tree .query) : (mentions [] false [] q.tokens).Perm
    (((q.occurrences 0 [] false).filter (·.seen)).map (·.mention)) := by
  have hfit : Part.query.Fits false [] := ends_nil
  refine List.perm_iff_count.2 fun m => ?_
  have h := q.passes rfl hfit [] [] [] m
  rw [List.append_nil, mentions, List.count_nil, Nat.add_zero] at h
  rw [h, List.count, List.countP_map, List.countP_filter]
  refine List.countP_congr fun o _ => ?_
  simp [and_comm]

/-- The relations that are reported are those that are read where the search looks. -/
theorem readBy_perm (q : Tree .query) (defaultSchema : String) :
    (Relation.readBy defaultSchema q.tokens).Perm (q.seenRelations defaultSchema) := by
  have hresolve : ∀ o ∈ (q.occurrences 0 [] false).filter (·.seen),
      (resolve (bindings q.tokens) defaultSchema ∘ (·.mention)) o = o.relation? defaultSchema :=
    fun _ ho => q.resolve_mention defaultSchema (List.mem_filter.1 ho).1
  have h := q.mentions_perm.filterMap (resolve (bindings q.tokens) defaultSchema)
  rwa [List.filterMap_map, List.filterMap_congr hresolve] at h

theorem mem_readBy (q : Tree .query) (defaultSchema : String) (r : Relation) :
    r ∈ Relation.readBy defaultSchema q.tokens ↔ r ∈ q.seenRelations defaultSchema :=
  (readBy_perm q defaultSchema).mem_iff

/-- The text holds this query as its only statement. -/
def Spells (sql : String) (q : Tree .query) : Prop :=
  ∃ pieces, statement (Scan.ofString sql) = .ok pieces ∧ pieces.map Piece.token = q.tokens

theorem checkRelations_iff {policy : Policy} {list : AllowList}
    (hlist : policy.allowedRelations = some list) (ts : List Token) :
    checkRelations policy ts = .ok () ↔
      ∀ r ∈ Relation.readBy policy.defaultSchema ts, list.allows r = true := by
  rw [checkRelations, hlist]
  dsimp only
  cases hfind : (Relation.readBy policy.defaultSchema ts).find? (!list.allows ·) with
  | none =>
    have h := List.find?_eq_none.1 hfind
    simpa using h
  | some r =>
    have hmem := List.mem_of_find?_eq_some hfind
    have hr := List.find?_some hfind
    simp only [reduceCtorEq, false_iff]
    intro h
    simp [h r hmem] at hr

/-- The text is neither accepted nor rewritten. -/
def Rejected (policy : Policy) (sql : String) (supplied : Option Nat) : Prop :=
  ∃ reason, validate policy sql supplied = .reject reason

/-- The relations that the search comes upon are on the allow-list, or the statement is rejected. -/
theorem rejected_or_seen_allowed {policy : Policy} {list : AllowList}
    (hlist : policy.allowedRelations = some list) {sql : String} {q : Tree .query}
    (hq : Spells sql q) (supplied : Option Nat) :
    Rejected policy sql supplied ∨
      ∀ r ∈ q.seenRelations policy.defaultSchema, list.allows r = true := by
  cases h : assess policy sql supplied with
  | error reason =>
    refine .inl ⟨reason, ?_⟩
    rw [validate, h]
    rfl
  | ok out =>
    obtain ⟨pieces, hpieces, htokens⟩ := hq
    obtain ⟨pieces', hpieces', hchecks, -⟩ := RowLimit.assess_ok h
    obtain rfl : pieces = pieces' := by
      rw [hpieces] at hpieces'
      cases hpieces'
      rfl
    rw [htokens] at hchecks
    have hallowed := (checkRelations_iff hlist _).1 (Safety.checkTokens_iff.1 hchecks).2.2.2
    exact .inr fun r hr => hallowed r ((mem_readBy q _ r).2 hr)

/-- All relations of a query are reported exactly if each one that is read where the search does not
look is also read where it looks. A text that reads a relation outside of the allow-list is rejected
exactly if this holds of the relations that are read where the search does not look. -/
theorem relations_reported_iff (q : Tree .query) {policy : Policy} {list : AllowList}
    (hlist : policy.allowedRelations = some list) :
    ((∀ r ∈ q.relations policy.defaultSchema, r ∈ Relation.readBy policy.defaultSchema q.tokens) ↔
        ∀ r ∈ q.unseenRelations policy.defaultSchema, r ∈ q.seenRelations policy.defaultSchema) ∧
      ∀ sql supplied, Spells sql q →
        ((Rejected policy sql supplied ∨
            ∀ r ∈ q.relations policy.defaultSchema, list.allows r = true) ↔
          (Rejected policy sql supplied ∨
            ∀ r ∈ q.unseenRelations policy.defaultSchema, list.allows r = true)) ∧
        ((∀ r ∈ q.unseenRelations policy.defaultSchema,
            r ∈ q.seenRelations policy.defaultSchema) →
          Rejected policy sql supplied ∨
            ∀ r ∈ q.relations policy.defaultSchema, list.allows r = true) := by
  refine ⟨?_, fun sql supplied hq => ?_⟩
  · simp only [mem_readBy, Tree.mem_relations]
    constructor
    · exact fun h r hr => h r (.inr hr)
    · intro h r hr
      rcases hr with hr | hr
      · exact hr
      · exact h r hr
  · have hseen := rejected_or_seen_allowed hlist hq supplied
    refine ⟨⟨?_, ?_⟩, fun hsub => ?_⟩
    · exact fun h => h.imp_right fun hall r hr => hall r (Tree.mem_relations.2 (.inr hr))
    · intro h
      rcases h with h | hunseen
      · exact .inl h
      · refine hseen.imp_right fun hallowed r hr => ?_
        rcases Tree.mem_relations.1 hr with hr | hr
        · exact hallowed r hr
        · exact hunseen r hr
    · refine hseen.imp_right fun hallowed r hr => ?_
      rcases Tree.mem_relations.1 hr with hr | hr
      · exact hallowed r hr
      · exact hallowed r (hsub r hr)

/-! ## A comma behind a join -/

def wordToken (s : String) : Token :=
  ⟨.word, s.toList⟩

def tableNamed (s : String) (h : (wordToken s).isAnyKeyword reserved = false) : Tree .item :=
  .table [] ⟨⟨wordToken s, rfl, h⟩, []⟩ .noLabel

/-- The query `SELECT * FROM a JOIN b ON true LIMIT 1`, with more items behind the join. -/
def joinWith (more : Tree (.more true)) : Tree .query :=
  .plain (.selectFrom ⟨wordToken "SELECT", rfl⟩ (.word ⟨⟨.punct '*', ['*']⟩, rfl⟩ .done)
    ⟨wordToken "FROM", rfl⟩ (tableNamed "a" rfl)
    (.join ⟨[], nofun⟩ ⟨wordToken "JOIN", rfl⟩ (tableNamed "b" rfl)
      (.clause ⟨wordToken "ON", rfl⟩ (.word ⟨wordToken "true", rfl⟩ .done)) more)
    (.clause ⟨wordToken "LIMIT", rfl⟩ (.word ⟨⟨.number, ['1']⟩, rfl⟩ .done)))

theorem relations_reported_join :
    let policy : Policy := { allowedRelations := some (.ofEntries ["public.a", "public.b"]) }
    validate policy "SELECT * FROM a JOIN b ON true LIMIT 1" none = .accept ∧
      Spells "SELECT * FROM a JOIN b ON true LIMIT 1" (joinWith .stop) ∧
        (∀ r ∈ (joinWith .stop).relations "public",
          r ∈ Relation.readBy "public" (joinWith .stop).tokens) ∧
        (Rejected policy "SELECT * FROM a JOIN b ON true LIMIT 1" none ∨
          ∀ r ∈ (joinWith .stop).relations "public",
            (AllowList.ofEntries ["public.a", "public.b"]).allows r = true) := by
  intro policy
  have hscan : Scan.ofString "SELECT * FROM a JOIN b ON true LIMIT 1" =
      scanWithin 60 "SELECT * FROM a JOIN b ON true LIMIT 1".toList :=
    ofChars_eq_scanWithin 60 (by decide)
  have hspells : Spells "SELECT * FROM a JOIN b ON true LIMIT 1" (joinWith .stop) := by
    refine ⟨(scanWithin 60 "SELECT * FROM a JOIN b ON true LIMIT 1".toList).pieces, ?_⟩
    rw [hscan]
    decide +kernel
  have hunseen : (joinWith .stop).unseenRelations "public" = [] := by decide +kernel
  have haccept : validate policy "SELECT * FROM a JOIN b ON true LIMIT 1" none = .accept := by
    unfold validate assess
    rw [hscan]
    decide +kernel
  have hsub : ∀ r ∈ (joinWith .stop).unseenRelations "public",
      r ∈ (joinWith .stop).seenRelations "public" := by
    rw [hunseen]
    exact nofun
  have h := @relations_reported_iff (joinWith .stop) policy _ rfl
  exact ⟨haccept, hspells, h.1.2 hsub, (h.2 _ none hspells).2 hsub⟩

/-- A list goes on behind a join, but is not read further: the query reads `secrets` and passes. -/
theorem relations_reported_comma :
    let policy : Policy := { allowedRelations := some (.ofEntries ["public.a", "public.b"]) }
    let q := joinWith (.comma (tableNamed "secrets" rfl) .stop)
    Spells "SELECT * FROM a JOIN b ON true, secrets LIMIT 1" q ∧
      ⟨"public", "secrets"⟩ ∈ q.relations "public" ∧
        ⟨"public", "secrets"⟩ ∉ Relation.readBy "public" q.tokens ∧
          validate policy "SELECT * FROM a JOIN b ON true, secrets LIMIT 1" none = .accept := by
  intro policy q
  have hscan : Scan.ofString "SELECT * FROM a JOIN b ON true, secrets LIMIT 1" =
      scanWithin 60 "SELECT * FROM a JOIN b ON true, secrets LIMIT 1".toList :=
    ofChars_eq_scanWithin 60 (by decide)
  have hspells : Spells "SELECT * FROM a JOIN b ON true, secrets LIMIT 1" q := by
    refine ⟨(scanWithin 60 "SELECT * FROM a JOIN b ON true, secrets LIMIT 1".toList).pieces, ?_⟩
    rw [hscan]
    decide +kernel
  have haccept : validate policy "SELECT * FROM a JOIN b ON true, secrets LIMIT 1" none = .accept := by
    unfold validate assess
    rw [hscan]
    decide +kernel
  refine ⟨hspells, by decide +kernel, ?_, haccept⟩
  decide +kernel

end SpatialQuery.Query
