import SpatialQuery.Proofs.Definition.Scopes
import SpatialQuery.Proofs.Rendering.Supplied
import SpatialQuery.Proofs.Meaning.Written

/-!
The references of a statement. Each of them names a source that it may see (`Parts.named`), and it names only one if
no two sources have a name in common that a reference uses (`unambiguous_iff`).
-/

namespace SpatialQuery

open Sql

/-! ## References -/

namespace Sql

def Operand.reference? : Operand → Option ColumnRef
  | column c => some c
  | param _ | geometry _ _ => none

def Predicate.references (p : Predicate) : List ColumnRef :=
  p.operands.filterMap Operand.reference?

def Join.references (j : Join) : List ColumnRef :=
  j.condition.toList.flatMap Predicate.references

namespace Select

/-- The references outside of joins. -/
def references (s : Select) : List ColumnRef :=
  s.items.map (·.column) ++ (s.condition.toList.flatMap Predicate.references ++
    (s.groupBy ++ s.orderBy.map (·.column)))

def sources (s : Select) : List Source :=
  s.source :: s.joins.map (·.source)

/-- The sources that the condition of a join sees: the first one, and those joined up to its own. -/
def sourcesUpTo (s : Select) (join : Nat) : List Source :=
  s.sources.take (join + 2)

end Select

end Sql

namespace Definition

/-- Each qualifier names one of the sources. -/
def AllNamed (sources : List Source) (refs : List ColumnRef) : Prop :=
  ∀ c ∈ refs, c.qualifier ≠ [] → ∃ s ∈ sources, NamedBy s c.qualifier

/-- Each qualifier names exactly one of the sources. -/
def AllNameOne (sources : List Source) (refs : List ColumnRef) : Prop :=
  ∀ c ∈ refs, c.qualifier ≠ [] → sources.countP (NamedBy · c.qualifier) = 1

def qualifiers (refs : List ColumnRef) : List (List Identifier) :=
  refs.map (·.qualifier)

theorem AllNamed.append {sources : List Source} {refs refs' : List ColumnRef} (h : AllNamed sources refs)
    (h' : AllNamed sources refs') : AllNamed sources (refs ++ refs') :=
  List.forall_mem_append.2 ⟨h, h'⟩

theorem countP_le_one_iff {α : Type} {p : α → Bool} {xs : List α} :
    xs.countP p ≤ 1 ↔ xs.Pairwise fun x y => p x = true → ¬p y = true := by
  induction xs with
  | nil => simp
  | cons x xs ih =>
    rw [List.pairwise_cons, ← ih, List.countP_cons]
    cases hx : p x with
    | true =>
      have hnone : xs.countP p = 0 ↔ ∀ y ∈ xs, ¬p y = true := List.countP_eq_zero
      rw [if_pos rfl]
      simp only [forall_const, ← hnone]
      omega
    | false => simp

/-- References that each name a source name only one, if the sources are told apart by them. -/
theorem allNameOne_iff {sources : List Source} {refs : List ColumnRef} (h : AllNamed sources refs) :
    AllNameOne sources refs ↔ sources.Pairwise (ToldApart (qualifiers refs)) := by
  have hpairs : sources.Pairwise (ToldApart (qualifiers refs)) ↔
      ∀ q ∈ qualifiers refs, sources.countP (NamedBy · q) ≤ 1 := by
    simp only [toldApart_iff, countP_le_one_iff, decide_eq_true_eq, List.pairwise_iff_forall_sublist]
    exact ⟨fun hp q hq _ _ hst => hp hst q hq, fun hp _ _ hst q hq => hp q hq hst⟩
  rw [hpairs, qualifiers, List.forall_mem_map, AllNameOne]
  refine forall₂_congr fun c hc => ?_
  by_cases hq : c.qualifier = []
  · have hzero : sources.countP (NamedBy · c.qualifier) = 0 := by
      rw [List.countP_eq_zero, hq]
      intro s _ hs
      rw [decide_eq_true_eq] at hs
      cases hs
    exact ⟨fun _ => hzero ▸ Nat.zero_le 1, fun _ hne => absurd hq hne⟩
  · obtain ⟨s, hs, hnamed⟩ := h c hc hq
    have hpos : 0 < sources.countP (NamedBy · c.qualifier) := List.countP_pos_iff.2 ⟨s, hs, by simpa using hnamed⟩
    simp only [ne_eq, hq, not_false_eq_true, forall_const]
    omega

/-! ## References that are read -/

section Read

variable {scope : Scope}

theorem named_of_resolve? {qualifier : List Identifier} {s : Source} (hq : qualifier ≠ [])
    (h : scope.resolve? qualifier = some s) : s ∈ scope ∧ NamedBy s qualifier := by
  cases qualifier with
  | nil => exact absurd rfl hq
  | cons n ns =>
    change scope.find? (names (n :: ns)) = some s at h
    exact ⟨List.mem_of_find?_eq_some h, names_iff.1 (List.find?_some h)⟩

theorem named_of_columnIn {text : String} {c : ColumnRef} (h : columnIn scope text = .ok c) :
    AllNamed scope [c] := by
  obtain ⟨c', -, h⟩ := bind_ok_iff.1 h
  split at h
  · cases h
  · obtain ⟨r, hr, h⟩ := bind_ok_iff.1 h
    obtain rfl := Except.ok.inj h
    obtain ⟨s, hs, -⟩ := resolve_ok hr
    rintro _ hc hq
    obtain rfl := List.mem_singleton.1 hc
    obtain ⟨hmem, hnamed⟩ := named_of_resolve? hq hs
    exact ⟨s, hmem, hnamed⟩

theorem references_params (vs : List Value) : (vs.map Operand.param).filterMap Operand.reference? = [] := by
  rw [List.filterMap_eq_nil_iff, List.forall_mem_map]
  exact fun _ _ => rfl

/-- The predicate of a condition refers to the column of the condition only. -/
theorem references_written {c : ColumnRef} {o : Operator} {vs : List Value} {p : Predicate}
    (h : Meaning.Written c o vs p) : p.references = [c] := by
  cases h with
  | member vs | notMember vs => exact congrArg (c :: ·) (references_params vs)
  | _ => rfl

theorem named_of_condition {c : Condition} {p : Predicate} (h : conditionPredicate scope c = .ok p) :
    AllNamed scope p.references := by
  obtain ⟨column, hcolumn, hp⟩ := Meaning.conditionPredicate_ok h
  rw [references_written (Meaning.written_predicateOf hp).1]
  exact named_of_columnIn hcolumn

theorem named_filter {cs : List Condition} {condition : Option Predicate} (h : filter scope cs = .ok condition) :
    AllNamed scope (condition.toList.flatMap Predicate.references) := by
  have hpair : ∀ {p q : Predicate}, AllNamed scope p.references → AllNamed scope q.references →
      AllNamed scope ((p.operands ++ q.operands).filterMap Operand.reference?) := by
    intro p q hp hq
    rw [List.filterMap_append]
    exact hp.append hq
  have hall := Meaning.filter_of (P := fun p => AllNamed scope p.references) hpair hpair h
    fun _ _ _ hp => named_of_condition hp
  cases condition with
  | none => exact List.forall_mem_nil _
  | some p =>
    rw [Option.toList_some, List.flatMap_singleton]
    exact hall p rfl

theorem named_joinCondition {j : Join} {condition : Option Predicate} (h : joinCondition scope j = .ok condition) :
    AllNamed scope (condition.toList.flatMap Predicate.references) := by
  cases condition with
  | none => exact List.forall_mem_nil _
  | some p =>
    obtain ⟨_, _, a, b, -, -, -, ha, hb, rfl⟩ := joinCondition_ok h
    exact (named_of_columnIn ha).append (named_of_columnIn hb)

/-- A join sees the sources in front of it and its own. -/
theorem named_readJoins {js : List (Join × Source)} {joins : List Sql.Join} (h : readJoins scope js = .ok joins)
    {k : Nat} {j : Sql.Join} (hj : joins[k]? = some j) :
    AllNamed ((scope ++ joins.map (·.source)).take (scope.length + k + 1)) j.references := by
  induction js generalizing scope joins k with
  | nil =>
    cases h
    cases hj
  | cons first js ih =>
    obtain ⟨first, s⟩ := first
    obtain ⟨condition, rest, hcondition, hrest, rfl⟩ := readJoins_cons_iff.1 h
    rw [List.map_cons, List.append_cons]
    cases k with
    | zero =>
      obtain rfl := Option.some.inj hj
      have hlength : scope.length + 0 + 1 = (scope ++ [s]).length := by simp
      rw [hlength, List.take_left]
      exact named_joinCondition hcondition
    | succ k =>
      have hnamed := ih hrest hj
      have hlength : scope.length + (k + 1) + 1 = (scope ++ [s]).length + k + 1 := by
        rw [List.length_append, List.length_singleton]
        omega
      rwa [hlength]

theorem named_of_outputsOf {i : Item} {outputs : List OutputColumn} (h : outputsOf scope i = .ok outputs) :
    AllNamed scope [i.column] := by
  rintro _ hc hq
  obtain rfl := List.mem_singleton.1 hc
  obtain ⟨-, -, hall, -⟩ | ⟨s, hs, -⟩ := outputsOf_cases h
  · exact absurd hall hq
  · obtain ⟨hmem, hnamed⟩ := named_of_resolve? hq hs
    exact ⟨s, hmem, hnamed⟩

theorem named_of_list {d : Definition} {groups : List ColumnRef} {items : List Item} {outputs : List OutputColumn}
    (h : selectList d scope groups = .ok (items, outputs)) : AllNamed scope (items.map (·.column)) := by
  obtain ⟨rfl, -⟩ | ⟨-, os, hos, -⟩ := outputs_of_list h
  · exact List.forall_mem_nil _
  · clear h
    induction hos with
    | nil => exact List.forall_mem_nil _
    | cons ho _ ih => exact (named_of_outputsOf ho).append ih

end Read

/-! ## References of a statement -/

variable {d : Definition} {s : Select} {outputs : List OutputColumn} {sources : List Source}

theorem Parts.scope_eq (h : Parts d s outputs sources) : s.source :: sources = s.sources := by
  rw [Select.sources, h.sources_eq]

theorem Parts.named (h : Parts d s outputs sources) : AllNamed s.sources s.references := by
  rw [← h.scope_eq]
  have hgroups : AllNamed (s.source :: sources) s.groupBy := by
    intro c hc
    obtain ⟨text, -, hcolumn⟩ := exists_of_mapM_ok h.groupBy c hc
    exact named_of_columnIn hcolumn c List.mem_cons_self
  have horders : AllNamed (s.source :: sources) (s.orderBy.map (·.column)) := by
    refine List.forall_mem_map.2 fun o ho => ?_
    obtain ⟨order, -, horder⟩ := exists_of_mapM_ok h.orderBy o ho
    obtain ⟨c, hcolumn, horder⟩ := bind_ok_iff.1 horder
    obtain rfl := Except.ok.inj horder
    exact named_of_columnIn hcolumn c List.mem_cons_self
  exact (named_of_list h.list).append ((named_filter h.condition).append (hgroups.append horders))

theorem Parts.named_join (h : Parts d s outputs sources) {k : Nat} {j : Sql.Join} (hj : s.joins[k]? = some j) :
    AllNamed (s.sourcesUpTo k) j.references := by
  have hnamed := named_readJoins h.joins hj
  rwa [List.length_singleton, Nat.add_right_comm, Nat.add_comm 1 1, Nat.add_comm] at hnamed

/-- Each reference with a qualifier names exactly one of the sources that it may see. -/
structure Unambiguous (s : Select) : Prop where
  references : AllNameOne s.sources s.references
  joins : ∀ k j, s.joins[k]? = some j → AllNameOne (s.sourcesUpTo k) j.references

/-- The references of a statement are unambiguous exactly if no two sources have a name in common that one of the
references uses. -/
theorem unambiguous_iff (h : d.compiled = .ok (s, outputs)) :
    Unambiguous s ↔ s.sources.Pairwise (ToldApart (qualifiers s.references)) ∧
      ∀ k j, s.joins[k]? = some j → (s.sourcesUpTo k).Pairwise (ToldApart (qualifiers j.references)) := by
  obtain ⟨sources, hparts⟩ := parts_of_compiled h
  have hjoin : ∀ k j, s.joins[k]? = some j → (AllNameOne (s.sourcesUpTo k) j.references ↔
      (s.sourcesUpTo k).Pairwise (ToldApart (qualifiers j.references))) :=
    fun k j hj => allNameOne_iff (hparts.named_join hj)
  rw [← allNameOne_iff hparts.named]
  constructor
  · rintro ⟨href, hjoins⟩
    exact ⟨href, fun k j hj => (hjoin k j hj).1 (hjoins k j hj)⟩
  · rintro ⟨href, hjoins⟩
    exact ⟨href, fun k j hj => (hjoin k j hj).2 (hjoins k j hj)⟩

/-! ## Two tables of one name -/

/-- Columns of `geo.roads`, joined with `public.roads`. -/
def twoRoads (columns : List Definition.Column) : Definition :=
  { schema := "geo", table := "roads", columns,
    joins := [{ kind := .inner, table := "roads", left := some "geo.roads.id", right := some "public.roads.id" }] }

/-- The statement, with the column of the keys and the schema of the second table. -/
def twoRoadsSelect (key schema : Identifier) (items : List Item) : Select :=
  let roads : Identifier := ⟨"roads", rfl⟩
  let keyOf (schema : Identifier) : Operand := .column ⟨[schema, roads], some key⟩
  ⟨false, items, ⟨⟨"geo", rfl⟩, roads, none⟩,
    [⟨.inner, ⟨schema, roads, none⟩, some (.compare .equal (keyOf ⟨"geo", rfl⟩) (keyOf schema))⟩],
    none, [], [], none, none⟩

/-- The schema tells them apart. -/
theorem unambiguous_with_schema : ∃ s outputs,
    (twoRoads [⟨"public.roads.name", none, none⟩]).compiled = .ok (s, outputs) ∧ Unambiguous s := by
  let item : Item := ⟨⟨[⟨"public", rfl⟩, ⟨"roads", rfl⟩], some ⟨"name", rfl⟩⟩, none, none⟩
  have hcompiled : (twoRoads [⟨"public.roads.name", none, none⟩]).compiled =
      .ok (twoRoadsSelect ⟨"id", rfl⟩ ⟨"public", rfl⟩ [item],
        [.single "name" ⟨"public", "roads"⟩ (some "name") none]) := by
    with_unfolding_all rfl
  refine ⟨_, _, hcompiled, (unambiguous_iff hcompiled).2 ⟨by decide +kernel, fun k j hj => ?_⟩⟩
  cases k with
  | zero =>
    obtain rfl := Option.some.inj hj
    decide +kernel
  | succ k => cases hj

/-- Without a schema `roads` names both, and the column is attributed to the first one. -/
theorem ambiguous_without_schema : ∃ s,
    (twoRoads [⟨"roads.name", none, none⟩]).compiled =
        .ok (s, [.single "name" ⟨"geo", "roads"⟩ (some "name") none]) ∧ ¬Unambiguous s := by
  let item : Item := ⟨⟨[⟨"roads", rfl⟩], some ⟨"name", rfl⟩⟩, none, none⟩
  refine ⟨twoRoadsSelect ⟨"id", rfl⟩ ⟨"public", rfl⟩ [item], by with_unfolding_all rfl, fun h => ?_⟩
  have hone := h.references item.column List.mem_cons_self (List.cons_ne_nil _ _)
  exact absurd hone (by decide +kernel)

end Definition

end SpatialQuery
