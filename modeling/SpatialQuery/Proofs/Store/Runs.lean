import SpatialQuery.Proofs.Store.History
import SpatialQuery.Proofs.Store.Kept

/-!
Stores in memory and in files give the right answer to every operation, whatever was asked of them before
(`answers_expected`). What is loaded from a file after some operations is the store in memory after the same
operations (`load_after`).
-/

namespace SpatialQuery

def SavedQuery.entry (q : SavedQuery) : Store.Entry :=
  ⟨q.key, q.definition, q.revision⟩

namespace Store

/-! ## Steps -/

/-- An operation that fails leaves what there was. -/
def attempt {σ : Type} (s : σ) : Except Error (Answer SavedQuery × σ) → Answer SavedQuery × σ
  | .ok r => r
  | .error e => (.failed e, s)

theorem attempt_failed {σ α : Type} {s : σ} {x : Except Error α} {f : α → Answer SavedQuery × σ}
    (hf : ∀ a, (f a).1.isFailed = false) {e : Error} (h : (attempt s (x.map f)).1 = .failed e) :
    (attempt s (x.map f)).2 = s := by
  cases x with
  | error e' => rfl
  | ok a =>
    have hfailed : (f a).1.isFailed = true := congrArg Answer.isFailed h
    rw [hf a] at hfailed
    cases hfailed

/-- What a store in memory answers at a time, and the store that it becomes. -/
def step (now : Calendar.DateTime) (s : Store) : Operation → Answer SavedQuery × Store
  | .save d => attempt s ((s.save now d).map fun (q, s') => (.saved q, s'))
  | .get k => (.found (s.get? k), s)
  | .list schema => (.listed (s.list schema), s)
  | .delete k => (.deleted (s.delete k).1, (s.delete k).2)
  | .reopen => (.reopened, s)

/-- What the store in a file answers at a time, and the file that is left. A store that is opened anew finds its
file. -/
def File.step (now : Calendar.DateTime) (f : File) : Operation → Answer SavedQuery × File
  | .save d => attempt f ((f.save now d).map fun (q, f') => (.saved q, f'))
  | .get k => attempt f ((f.get? k).map fun q => (.found q, f))
  | .list schema => attempt f ((f.list schema).map fun qs => (.listed qs, f))
  | .delete k => attempt f ((f.delete k).map fun (b, f') => (.deleted b, f'))
  | .reopen => (.reopened, f)

/-- What is left after some operations. -/
def after {σ : Type} (step : Calendar.DateTime → σ → Operation → Answer SavedQuery × σ)
    (clock : Nat → Calendar.DateTime) (s : σ) (ops : List Operation) : σ :=
  ops.zipIdx.foldl (fun s (o, i) => (step (clock i) s o).2) s

theorem after_append {σ : Type} (step : Calendar.DateTime → σ → Operation → Answer SavedQuery × σ)
    (clock : Nat → Calendar.DateTime) (s : σ) (ops : List Operation) (o : Operation) :
    after step clock s (ops ++ [o]) = (step (clock ops.length) (after step clock s ops) o).2 := by
  simp [after, List.zipIdx_append]

/-! ## In memory -/

/-- The store holds what the history says. -/
structure Represents (s : Store) (ops : List Operation) : Prop where
  sorted : Sorted s.queries
  get : ∀ k, (s.get? k).map SavedQuery.entry = live? ops k

section Memory

variable {s : Store} {ops : List Operation} {now : Calendar.DateTime}

theorem represents_empty : Represents {} [] :=
  ⟨List.Pairwise.nil, fun _ => rfl⟩

/-- Operations that change nothing are forgotten. -/
theorem Represents.unchanged (h : Represents s ops) {o : Operation} (ho : ∀ k ds, savesAfter k ds o = ds) :
    Represents s (ops ++ [o]) := by
  refine ⟨h.sorted, fun k => ?_⟩
  rw [h.get, live?, live?, saves_append, ho]

theorem Represents.nextRevision (h : Represents s ops) (k : QueryKey) :
    nextRevision (s.get? k) = ((saves k ops).length + 1) % UInt64.size := by
  have hget := h.get k
  cases hfound : s.get? k with
  | none =>
    rw [hfound, Option.map_none, eq_comm, live?, Option.map_eq_none_iff, List.getLast?_eq_none_iff] at hget
    rw [hget]
    rfl
  | some q =>
    rw [hfound, Option.map_some, eq_comm] at hget
    obtain ⟨d, -, hq⟩ := Option.map_eq_some_iff.1 hget
    have hrevision : (saves k ops).length % UInt64.size = q.revision := congrArg Entry.revision hq
    rw [Store.nextRevision, ← hrevision, Nat.mod_add_mod]

/-- Saving replaces what is under one key. -/
theorem Represents.insert (h : Represents s ops) {d : Definition} {k : QueryKey} (hk : SavedUnder d k)
    (now : Calendar.DateTime) : live? (ops ++ [.save d]) k = some ⟨k, d, Store.nextRevision (s.get? k)⟩ ∧
      Represents (s.insert ⟨k, d, Store.nextRevision (s.get? k), now⟩) (ops ++ [.save d]) := by
  have hentry : live? (ops ++ [.save d]) k = some ⟨k, d, Store.nextRevision (s.get? k)⟩ := by
    rw [live?, saves_append, savesAfter, if_pos hk, List.getLast?_concat, List.length_append, h.nextRevision]
    rfl
  refine ⟨hentry, sorted_insertInto h.sorted, fun k' => ?_⟩
  rw [get?_insert]
  by_cases hkey : k = k'
  · subst hkey
    rw [if_pos rfl, hentry]
    rfl
  · have hother : ¬SavedUnder d k' := fun hk' =>
      hkey (Option.some.inj ((savedUnder_iff.1 hk).symm.trans (savedUnder_iff.1 hk')))
    rw [if_neg hkey, h.get, live?, live?, saves_append, savesAfter, if_neg hother]

theorem Represents.delete (h : Represents s ops) (k : QueryKey) :
    Represents (s.delete k).2 (ops ++ [.delete k]) := by
  refine ⟨sorted_delete h.sorted, fun k' => ?_⟩
  rw [get?_delete, live?, saves_append, savesAfter]
  by_cases hkey : k = k'
  · rw [if_pos hkey, if_pos hkey]
    rfl
  · rw [if_neg hkey, if_neg hkey]
    exact h.get k'

theorem mem_list {q : SavedQuery} {schema : Option String} :
    q ∈ s.list schema ↔ q ∈ s.queries ∧ ∀ n ∈ schema, q.key.schema = n := by
  cases schema <;> simp [list]

theorem Represents.listed (h : Represents s ops) (schema : Option String) :
    Expected ops (.list schema) (.listed ((s.list schema).map SavedQuery.entry)) := by
  have hsorted : Sorted (s.list schema) := by
    cases schema with
    | none => exact h.sorted
    | some n => exact h.sorted.filter _
  refine .listed (List.pairwise_map.2 (hsorted.imp QueryKey.before_iff.1)) fun e => ?_
  rw [← h.get, List.mem_map, Option.map_eq_some_iff]
  constructor
  · rintro ⟨q, hq, rfl⟩
    obtain ⟨hmem, hschema⟩ := mem_list.1 hq
    exact ⟨⟨q, (get?_eq_some_iff h.sorted).2 ⟨hmem, rfl⟩, rfl⟩, hschema⟩
  · rintro ⟨⟨q, hq, rfl⟩, hschema⟩
    exact ⟨q, mem_list.2 ⟨((get?_eq_some_iff h.sorted).1 hq).1, hschema⟩, rfl⟩

/-- One step gives the right answer, and holds what the longer history says. -/
theorem Represents.step (h : Represents s ops) (now : Calendar.DateTime) (o : Operation) :
    Expected ops o ((s.step now o).1.map SavedQuery.entry) ∧ Represents (s.step now o).2 (ops ++ [o]) := by
  -- only saving and deleting change what is stored
  cases o with
  | save d =>
    cases hkey : QueryKey.ofDefinition? d with
    | none =>
      have hunnamed : ∀ k, ¬SavedUnder d k := by
        intro k hk
        rw [savedUnder_iff, hkey] at hk
        cases hk
      have hstep : s.step now (.save d) = (.failed .unnamed, s) := by
        rw [Store.step, Store.save, hkey]
        rfl
      rw [hstep]
      exact ⟨.unnamed hunnamed, h.unchanged fun k ds => if_neg (hunnamed k)⟩
    | some k =>
      have hk := savedUnder_iff.2 hkey
      obtain ⟨hentry, hinsert⟩ := h.insert hk now
      have hstep : s.step now (.save d) = (.saved ⟨k, d, Store.nextRevision (s.get? k), now⟩,
          s.insert ⟨k, d, Store.nextRevision (s.get? k), now⟩) := by
        rw [Store.step, Store.save, hkey]
        rfl
      rw [hstep]
      exact ⟨.saved hk hentry, hinsert⟩
  | get k =>
    refine ⟨?_, h.unchanged fun _ _ => rfl⟩
    have hfound : Expected ops (.get k) _ := .found k
    rwa [← h.get] at hfound
  | list schema => exact ⟨h.listed schema, h.unchanged fun _ _ => rfl⟩
  | delete k =>
    refine ⟨?_, h.delete k⟩
    have hdeleted : Expected ops (.delete k) _ := .deleted k
    rwa [← h.get, Option.isSome_map] at hdeleted
  | reopen => exact ⟨.reopened, h.unchanged fun _ _ => rfl⟩

theorem represents_after (clock : Nat → Calendar.DateTime) (ops : List Operation) :
    Represents (after Store.step clock {} ops) ops := by
  induction ops using List.reverseRecOn with
  | nil => exact represents_empty
  | append_singleton ops o ih =>
    rw [after_append]
    exact (ih.step _ o).2

end Memory

/-! ## In files -/

theorem nextRevision_lt (q : Option SavedQuery) : nextRevision q < UInt64.size := by
  cases q with
  | none => decide
  | some q => exact Nat.mod_lt _ (by decide)

theorem sorted_step {s : Store} (h : Sorted s.queries) (now : Calendar.DateTime) (o : Operation) :
    Sorted (s.step now o).2.queries := by
  cases o with
  | save d =>
    rw [step, save]
    cases QueryKey.ofDefinition? d with
    | none => exact h
    | some k => exact sorted_insertInto h
  | delete k => exact sorted_delete h
  | get _ | list _ | reopen => exact h

/-- A step adds at most the query that it saves. -/
theorem mem_step {s : Store} {now : Calendar.DateTime} {o : Operation} {q : SavedQuery}
    (h : q ∈ (s.step now o).2.queries) : q ∈ s.queries ∨
      ∃ d k, o = .save d ∧ SavedUnder d k ∧ q = ⟨k, d, nextRevision (s.get? k), now⟩ := by
  cases o with
  | save d =>
    rw [step, save] at h
    cases hkey : QueryKey.ofDefinition? d with
    | none =>
      rw [hkey] at h
      exact .inl h
    | some k =>
      rw [hkey] at h
      rcases mem_insertInto h with rfl | hq
      · exact .inr ⟨d, k, rfl, savedUnder_iff.2 hkey, rfl⟩
      · exact .inl hq
  | delete k => exact .inl (List.mem_of_mem_filter h)
  | get _ | list _ | reopen => exact .inl h

theorem kept_step {s : Store} (h : s.Kept) {now : Calendar.DateTime} (hnow : now.Regular) {o : Operation}
    (ho : ∀ d, o = .save d → d.Storable) : (s.step now o).2.Kept := by
  refine ⟨sorted_step h.sorted now o, fun q hq => ?_⟩
  obtain hq | ⟨d, k, hd, -, rfl⟩ := mem_step hq
  · exact h.queries q hq
  · exact ⟨ho d hd, nextRevision_lt _, hnow⟩

theorem File.save_load {f : File} {s : Store} (h : f.load = .ok s) (now : Calendar.DateTime) (d : Definition) :
    f.save now d = (s.save now d).map fun (q, s') => (q, ofStore s') := by
  rw [save, h]
  change (s.save now d).bind _ = _
  cases s.save now d <;> rfl

/-- A file answers as the store that is loaded from it, and leaves the file of the store that it becomes. -/
theorem File.step_load {f : File} {s : Store} (h : f.load = .ok s) (now : Calendar.DateTime) (o : Operation) :
    (f.step now o).1 = (s.step now o).1 ∧
      ((f.step now o).2 = ofStore (s.step now o).2 ∨ (f.step now o).2 = f ∧ (s.step now o).2 = s) := by
  cases o with
  | save d =>
    rw [step, Store.step, save_load h]
    cases s.save now d with
    | error e => exact ⟨rfl, .inr ⟨rfl, rfl⟩⟩
    | ok r => exact ⟨rfl, .inl rfl⟩
  | delete k =>
    rw [step, delete, h]
    exact ⟨rfl, .inl rfl⟩
  | get k =>
    rw [step, get?, h]
    exact ⟨rfl, .inr ⟨rfl, rfl⟩⟩
  | list schema =>
    rw [step, list, h]
    exact ⟨rfl, .inr ⟨rfl, rfl⟩⟩
  | reopen => exact ⟨rfl, .inr ⟨rfl, rfl⟩⟩

theorem load_after {clock : Nat → Calendar.DateTime} (hclock : ∀ i, (clock i).Regular) {ops : List Operation}
    (hops : ∀ d, .save d ∈ ops → d.Storable) :
    (after step clock {} ops).Kept ∧ (after File.step clock .missing ops).load = .ok (after step clock {} ops) := by
  induction ops using List.reverseRecOn with
  | nil => exact ⟨⟨List.Pairwise.nil, List.forall_mem_nil _⟩, rfl⟩
  | append_singleton ops o ih =>
    obtain ⟨hkept, hload⟩ := ih fun d hd => hops d (List.mem_append_left _ hd)
    have hstep := kept_step hkept (hclock ops.length) (o := o) fun d hd =>
      hops d (List.mem_append_right _ (List.mem_singleton.2 hd.symm))
    rw [after_append, after_append]
    refine ⟨hstep, ?_⟩
    obtain ⟨-, hfile | ⟨hfile, hsame⟩⟩ := File.step_load hload (clock ops.length) o
    · rw [hfile, File.load_ofStore hstep]
    · rw [hfile, hsame, hload]

theorem unchanged_of_failed {s : Store} {now : Calendar.DateTime} {o : Operation} {e : Error}
    (h : (s.step now o).1 = .failed e) : (s.step now o).2 = s := by
  cases o with
  | save d => exact attempt_failed (fun _ => rfl) h
  | get _ | list _ | delete _ | reopen => cases h

theorem File.unchanged_of_failed {f : File} {now : Calendar.DateTime} {o : Operation} {e : Error}
    (h : (f.step now o).1 = .failed e) : (f.step now o).2 = f := by
  cases o with
  | save d => exact attempt_failed (fun _ => rfl) h
  | get k => exact attempt_failed (fun _ => rfl) h
  | list schema => exact attempt_failed (fun _ => rfl) h
  | delete k => exact attempt_failed (fun _ => rfl) h
  | reopen => cases h

/-- Stores in memory and in files give the right answers, each at its own times. -/
theorem answers_expected {clock clock' : Nat → Calendar.DateTime} (hclock : ∀ i, (clock' i).Regular)
    {ops : List Operation} (hops : ∀ d, .save d ∈ ops → d.Storable) (o : Operation) :
    let s := after step clock {} ops
    let f := after File.step clock' .missing ops
    let inMemory := s.step (clock ops.length) o
    let inFile := f.step (clock' ops.length) o
    Expected ops o (inMemory.1.map SavedQuery.entry) ∧
      inFile.1.map SavedQuery.entry = inMemory.1.map SavedQuery.entry ∧
      (∀ e, inMemory.1 = .failed e → inMemory.2 = s) ∧ ∀ e, inFile.1 = .failed e → inFile.2 = f := by
  intro s f inMemory inFile
  have hmemory := ((represents_after clock ops).step (clock ops.length) o).1
  have hfile := ((represents_after clock' ops).step (clock' ops.length) o).1
  have hanswer : inFile.1 = _ := (File.step_load (load_after hclock hops).2 (clock' ops.length) o).1
  refine ⟨hmemory, ?_, fun e => unchanged_of_failed, fun e => File.unchanged_of_failed⟩
  rw [hanswer]
  exact hfile.unique hmemory

theorem answers_expected_countries :
    let d : Definition := { name := some " big ", table := "countries" }
    let k : QueryKey := ⟨"public", "countries", "big"⟩
    let ops : List Operation := [.save d, .save d, .reopen]
    let clock : Nat → Calendar.DateTime := fun i => ⟨i, 0, 0⟩
    let clock' : Nat → Calendar.DateTime := fun _ => ⟨0, 0, 0⟩
    (∀ i, (clock' i).Regular) ∧ (∀ d, .save d ∈ ops → d.Storable) ∧
      ((after step clock {} ops).step (clock 3) (.get k)).1.map SavedQuery.entry = .found (some ⟨k, d, 2⟩) ∧
      ((after File.step clock' .missing ops).step (clock' 3) (.get k)).1.map SavedQuery.entry =
        .found (some ⟨k, d, 2⟩) := by
  intro d k ops clock clock'
  have hclock : ∀ i, (clock' i).Regular := fun _ => ⟨by decide, by decide, by decide⟩
  have hops : ∀ d, .save d ∈ ops → d.Storable := by
    intro d hd
    obtain rfl : d = { name := some " big ", table := "countries" } := by simpa [ops] using hd
    exact ⟨List.forall_mem_nil _, nofun, nofun⟩
  have hentry : live? ops k = some ⟨k, d, 2⟩ := by
    rfl
  obtain ⟨hmemory, hfile, -, -⟩ := @answers_expected clock clock' hclock ops hops (.get k)
  have hfound := hmemory.unique (.found k)
  rw [hentry] at hfound
  exact ⟨hclock, hops, hfound, hfile.trans hfound⟩

end Store

end SpatialQuery
