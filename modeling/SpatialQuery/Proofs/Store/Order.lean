import Mathlib.Data.Prod.Lex
import Mathlib.Data.String.Basic
import SpatialQuery.Store

/-!
A store is a finite map: its queries are in the strict order of their keys (`Sorted`), and saving and deleting
change what is found under one key only (`get?_insert`, `get?_delete`).
-/

namespace SpatialQuery

namespace QueryKey

/-- The parts of a key, ordered from the first to the last. -/
def parts (k : QueryKey) : String ×ₗ String ×ₗ String :=
  toLex (k.schema, toLex (k.table, k.name))

theorem parts_injective {a b : QueryKey} (h : a.parts = b.parts) : a = b := by
  cases a
  cases b
  cases h
  rfl

theorem before_iff {a b : QueryKey} : a.before b = true ↔ a.parts < b.parts := by
  simp [before, parts, Prod.Lex.toLex_lt_toLex]

theorem ne_of_before {a b : QueryKey} (h : a.before b = true) : a ≠ b := by
  rintro rfl
  exact lt_irrefl _ (before_iff.1 h)

theorem before_trans {a b c : QueryKey} (hab : a.before b = true) (hbc : b.before c = true) : a.before c = true :=
  before_iff.2 (lt_trans (before_iff.1 hab) (before_iff.1 hbc))

theorem before_of_not {a b : QueryKey} (hne : a ≠ b) (h : ¬a.before b = true) : b.before a = true := by
  rw [before_iff] at h ⊢
  exact lt_of_le_of_ne (not_lt.1 h) fun hparts => hne (parts_injective hparts.symm)

end QueryKey

namespace Store

/-- The queries are in the order of their keys, and no two have the same key. -/
def Sorted (qs : List SavedQuery) : Prop :=
  qs.Pairwise fun p q => p.key.before q.key = true

variable {q : SavedQuery} {qs : List SavedQuery}

theorem mem_insertInto {p : SavedQuery} (h : p ∈ insertInto q qs) : p = q ∨ p ∈ qs := by
  fun_induction insertInto q qs with
  | case1 => exact .inl (List.mem_singleton.1 h)
  | case2 r rs hkey =>
    rcases List.mem_cons.1 h with h | h
    · exact .inl h
    · exact .inr (List.mem_cons_of_mem r h)
  | case3 r rs hkey hbefore => exact List.mem_cons.1 h
  | case4 r rs hkey hbefore ih =>
    rcases List.mem_cons.1 h with rfl | h
    · exact .inr (List.mem_cons_self ..)
    · exact (ih h).imp_right (List.mem_cons_of_mem r)

theorem sorted_insertInto (h : Sorted qs) : Sorted (insertInto q qs) := by
  fun_induction insertInto q qs with
  | case1 => exact List.pairwise_singleton ..
  | case2 r rs hkey =>
    obtain ⟨hr, hrs⟩ := List.pairwise_cons.1 h
    exact List.pairwise_cons.2 ⟨fun p hp => beq_iff_eq.1 hkey ▸ hr p hp, hrs⟩
  | case3 r rs hkey hbefore =>
    obtain ⟨hr, hrs⟩ := List.pairwise_cons.1 h
    refine List.pairwise_cons.2 ⟨List.forall_mem_cons.2 ⟨hbefore, fun p hp => ?_⟩, h⟩
    exact QueryKey.before_trans hbefore (hr p hp)
  | case4 r rs hkey hbefore ih =>
    obtain ⟨hr, hrs⟩ := List.pairwise_cons.1 h
    refine List.pairwise_cons.2 ⟨fun p hp => ?_, ih hrs⟩
    rcases mem_insertInto hp with rfl | hp
    · exact QueryKey.before_of_not (fun heq => hkey (beq_iff_eq.2 heq.symm)) hbefore
    · exact hr p hp

theorem find?_insertInto (k : QueryKey) :
    (insertInto q qs).find? (·.key == k) = if q.key = k then some q else qs.find? (·.key == k) := by
  fun_induction insertInto q qs with
  | case1 => by_cases hk : q.key = k <;> simp [hk]
  | case2 r rs hkey =>
    have hr : r.key = q.key := beq_iff_eq.1 hkey
    by_cases hk : q.key = k <;> simp [hr, hk]
  | case3 r rs hkey hbefore => by_cases hk : q.key = k <;> simp [hk]
  | case4 r rs hkey hbefore ih =>
    rw [List.find?_cons, List.find?_cons, ih]
    by_cases hk : q.key = k
    · have hr : (r.key == k) = false := hk ▸ Bool.eq_false_iff.2 hkey
      rw [hr, if_pos hk]
    · simp only [if_neg hk]

/-- What comes last is put last. -/
theorem insertInto_last (h : ∀ p ∈ qs, p.key.before q.key = true) : insertInto q qs = qs ++ [q] := by
  induction qs with
  | nil => rfl
  | cons r rs ih =>
    obtain ⟨hr, hrs⟩ := List.forall_mem_cons.1 h
    have hne : ¬(r.key == q.key) = true := by
      rw [beq_iff_eq]
      exact QueryKey.ne_of_before hr
    have hnot : ¬q.key.before r.key = true := fun hbefore =>
      QueryKey.ne_of_before (QueryKey.before_trans hr hbefore) rfl
    rw [insertInto, if_neg hne, if_neg hnot, ih hrs, List.cons_append]

/-- The queries of a store make the store again. -/
theorem ofList_sorted {s : Store} (h : Sorted s.queries) : ofList s.queries = s := by
  have hfold : ∀ ps qs : List SavedQuery, Sorted (ps ++ qs) → qs.foldl insert ⟨ps⟩ = ⟨ps ++ qs⟩ := by
    intro ps qs hsorted
    induction qs generalizing ps with
    | nil => rw [List.append_nil]; rfl
    | cons q qs ih =>
      have hlast : ∀ p ∈ ps, p.key.before q.key = true := fun p hp =>
        (List.pairwise_append.1 hsorted).2.2 p hp q (List.mem_cons_self ..)
      rw [List.append_cons] at hsorted ⊢
      rw [List.foldl_cons, insert, insertInto_last hlast, ih _ hsorted]
  exact hfold [] s.queries h

section Maps

variable {s : Store} {k : QueryKey}

theorem get?_insert (q : SavedQuery) (k : QueryKey) :
    (s.insert q).get? k = if q.key = k then some q else s.get? k :=
  find?_insertInto k

theorem get?_delete (k' : QueryKey) : (s.delete k).2.get? k' = if k = k' then none else s.get? k' := by
  rw [delete, get?, get?, List.find?_filter]
  by_cases hk : k = k'
  · rw [if_pos hk, List.find?_eq_none]
    simp [hk]
  · rw [if_neg hk]
    congr 1
    funext q
    by_cases hq : q.key = k'
    · simp [hq, Ne.symm hk]
    · simp [hq]

theorem sorted_delete (h : Sorted s.queries) : Sorted (s.delete k).2.queries :=
  h.filter _

/-- The queries are what is found under their keys. -/
theorem get?_eq_some_iff (h : Sorted s.queries) : s.get? k = some q ↔ q ∈ s.queries ∧ q.key = k := by
  constructor
  · intro hfound
    exact ⟨List.mem_of_find?_eq_some hfound, by simpa using List.find?_some hfound⟩
  · rintro ⟨hq, rfl⟩
    rw [get?]
    generalize s.queries = qs at h hq
    induction qs with
    | nil => cases hq
    | cons r rs ih =>
      obtain ⟨hr, hrs⟩ := List.pairwise_cons.1 h
      rcases List.mem_cons.1 hq with rfl | hq
      · simp
      · have hne : (r.key == q.key) = false := beq_eq_false_iff_ne.2 (QueryKey.ne_of_before (hr q hq))
        rw [List.find?_cons, hne]
        exact ih hrs hq

end Maps

end Store

end SpatialQuery
