import SpatialQuery.Proofs.Definition.Compiled

/-!
Sources and the names of them. A qualifier may name several sources (`NamedBy`), and a reference is attributed to the
first of them; two sources have a qualifier in common if one name stands for both (`toldApart_iff`).
-/

namespace SpatialQuery.Definition

open Sql

/-! ## Names of sources -/

/-- A source is named by its label; one without a label by its table, with or without the schema. -/
inductive NamedBy (s : Source) : List Identifier → Prop
  | label {n : Identifier} : s.label = some n → NamedBy s [n]
  | table : s.label = none → NamedBy s [s.table]
  | schema : s.label = none → NamedBy s [s.schema, s.table]

theorem names_iff {qualifier : List Identifier} {s : Source} : names qualifier s = true ↔ NamedBy s qualifier := by
  constructor
  · intro h
    unfold names at h
    split at h
    · rename_i hlabel
      obtain rfl := eq_of_beq h
      exact .label hlabel
    · rename_i hlabel
      obtain rfl := eq_of_beq h
      exact .table hlabel
    · rename_i hlabel
      rw [Bool.and_eq_true, beq_iff_eq, beq_iff_eq] at h
      obtain ⟨rfl, rfl⟩ := h
      exact .schema hlabel
    · cases h
  · rintro (hlabel | hlabel | hlabel) <;> simp [names, hlabel]

instance (s : Source) : DecidablePred (NamedBy s) :=
  fun _ => decidable_of_iff _ names_iff

/-- The name that stands for a source in a statement. -/
def exposed (s : Source) : Identifier :=
  s.label.getD s.table

theorem namedBy_single {s : Source} {n : Identifier} : NamedBy s [n] ↔ exposed s = n := by
  rw [← names_iff, exposed]
  unfold names
  cases s.label <;> simp

theorem namedBy_pair {s : Source} {schema n : Identifier} :
    NamedBy s [schema, n] ↔ s.label = none ∧ s.schema = schema ∧ s.table = n := by
  rw [← names_iff]
  unfold names
  cases s.label <;> simp

/-- None of the qualifiers names both of two sources. -/
def ToldApart (qualifiers : List (List Identifier)) (s t : Source) : Prop :=
  exposed s = exposed t → [exposed s] ∉ qualifiers ∧
    (s.label = none → t.label = none → s.schema = t.schema → [s.schema, s.table] ∉ qualifiers)

instance (qualifiers : List (List Identifier)) (s t : Source) : Decidable (ToldApart qualifiers s t) :=
  inferInstanceAs (Decidable (_ → _))

theorem toldApart_iff {qualifiers : List (List Identifier)} {s t : Source} :
    ToldApart qualifiers s t ↔ ∀ q ∈ qualifiers, NamedBy s q → ¬NamedBy t q := by
  constructor
  · intro h q hq hs ht
    have hcommon : ∀ {n}, q = [n] → exposed s = n → False := by
      rintro n rfl hn
      rw [namedBy_single, ← hn] at ht
      rw [← hn] at hq
      exact (h ht.symm).1 hq
    rcases hs with hlabel | hlabel | hlabel
    · exact hcommon rfl (namedBy_single.1 (.label hlabel))
    · exact hcommon rfl (namedBy_single.1 (.table hlabel))
    · obtain ⟨hlabel', hschema, htable⟩ := namedBy_pair.1 ht
      have hexposed : exposed s = exposed t := by rw [exposed, exposed, hlabel, hlabel', Option.getD_none, htable]; rfl
      exact (h hexposed).2 hlabel hlabel' hschema.symm hq
  · intro h hexposed
    refine ⟨fun hq => h _ hq (namedBy_single.2 rfl) (namedBy_single.2 hexposed.symm), ?_⟩
    intro hlabel hlabel' hschema hq
    rw [exposed, exposed, hlabel, hlabel', Option.getD_none, Option.getD_none] at hexposed
    exact h _ hq (.schema hlabel) (namedBy_pair.2 ⟨hlabel', hschema.symm, hexposed.symm⟩)

/-! ## Attribution -/

theorem resolve_ok {sources : List Source} {c : ColumnRef} {r : Relation}
    (h : Scope.resolve sources c = .ok r) : ∃ s, Scope.resolve? sources c.qualifier = some s ∧ s.relation = r := by
  unfold Scope.resolve at h
  split at h
  · rename_i s hs
    exact ⟨s, hs, Except.ok.inj h⟩
  · cases h

/-- The outputs of an item: all sources, all columns of one, or one column. -/
theorem outputsOf_cases {sources : List Source} {i : Item} {outputs : List OutputColumn}
    (h : outputsOf sources i = .ok outputs) :
    (i.column.column = none ∧ i.aggregate = none ∧ i.column.qualifier = [] ∧ outputs = allOutputs sources) ∨
      ∃ s, Scope.resolve? sources i.column.qualifier = some s ∧
        ((i.column.column = none ∧ i.aggregate = none ∧ i.column.qualifier ≠ [] ∧ outputs = [.allOf s.relation]) ∨
          ((i.column.column ≠ none ∨ i.aggregate ≠ none) ∧
            outputs = [.single (outputName i.label i.aggregate i.column.column) s.relation
              (i.column.column.map (·.name)) i.aggregate])) := by
  unfold outputsOf ColumnRef.isWildcard at h
  split at h
  · rename_i hall
    simp only [Bool.and_eq_true, Option.isNone_iff_eq_none, List.isEmpty_iff] at hall
    exact .inl ⟨hall.1.1, hall.1.2, hall.2, (Except.ok.inj h).symm⟩
  · rename_i hall
    simp only [Bool.and_eq_true, Option.isNone_iff_eq_none, List.isEmpty_iff, not_and] at hall
    split at h
    · cases h
    · rename_i r hresolve
      obtain ⟨s, hs, rfl⟩ := resolve_ok hresolve
      refine .inr ⟨s, hs, ?_⟩
      split at h
      · rename_i hwildcard
        simp only [Bool.and_eq_true, Option.isNone_iff_eq_none] at hwildcard
        exact .inl ⟨hwildcard.1, hwildcard.2, hall hwildcard, (Except.ok.inj h).symm⟩
      · rename_i hsingle
        simp only [Bool.and_eq_true, Option.isNone_iff_eq_none, not_and_or] at hsingle
        exact .inr ⟨hsingle, (Except.ok.inj h).symm⟩

/-- The outputs of a statement are those of its items, or all columns where it has none. -/
theorem outputs_of_list {d : Definition} {sources : List Source} {groups : List ColumnRef} {items : List Item}
    {outputs : List OutputColumn} (h : selectList d sources groups = .ok (items, outputs)) :
    (items = [] ∧ outputs = allOutputs sources) ∨
      (items ≠ [] ∧ ∃ os, List.Forall₂ (fun i o => outputsOf sources i = .ok o) items os ∧ outputs = os.flatten) := by
  unfold selectList at h
  split at h
  · obtain ⟨rfl, rfl⟩ := Prod.mk.inj (Except.ok.inj h)
    exact .inl ⟨rfl, rfl⟩
  · rename_i hcolumns
    obtain ⟨pairs, hpairs, h⟩ := bind_ok_iff.1 h
    obtain ⟨rfl, rfl⟩ := Prod.mk.inj (Except.ok.inj h)
    have hall := mapM_ok_iff.1 hpairs
    refine .inr ⟨?_, pairs.map Prod.snd, ?_, List.flatMap_def⟩
    · rintro hnil
      rw [List.map_eq_nil_iff] at hnil
      rw [hnil, List.forall₂_nil_right_iff] at hall
      simp [hall] at hcolumns
    · rw [List.forall₂_map_left_iff, List.forall₂_map_right_iff, List.forall₂_same]
      intro pair hpair
      obtain ⟨column, -, hitem⟩ := exists_of_mapM_ok hpairs pair hpair
      exact (selectItem_ok hitem).2.2

end SpatialQuery.Definition
