import SpatialQuery.Proofs.Definition.Reread
import SpatialQuery.Proofs.Store.Runs

/-!
Which files of a store can be loaded. A document has three containers around each of its definitions, and a definition
that was read of a text may be nested too deeply for that. The file with such a definition is written, but never read
again (`failed_document_iff`).
-/

namespace SpatialQuery

open Json

/-! ## Documents -/

namespace SavedQuery

/-- The whole numbers and the time of the query can be written. -/
structure Typed (q : SavedQuery) : Prop where
  definition : q.definition.Typed
  revision : q.revision < UInt64.size
  savedAt : q.savedAt.Regular

/-- What is read of the query when it was written. -/
def reread (q : SavedQuery) : SavedQuery :=
  { q with definition := q.definition.reread }

theorem typed_reread {q : SavedQuery} (h : q.Typed) : q.reread.Typed :=
  ⟨Definition.typed_reread h.definition, h.revision, h.savedAt⟩

theorem ofJson?_reread {q : SavedQuery} (h : q.Typed) :
    ofJson? (Json.reread 2 q.toJson) = if q.definition.Fits then some q.reread else none := by
  have hfields : (q.fields q.definition.toJson).map (Prod.map id (Option.map (Json.reread 3))) =
      q.fields (Json.reread 3 q.definition.toJson) := by
    have hkey : Encodes QueryKey.ofJson? 3 _ q.key := q.key.encodes_toJson (by decide)
    have hrevision : Encodes (asNat? Text.maxNat64) 3 _ q.revision := encodes_revision h.revision
    simp only [fields, List.map_cons, List.map_nil, Prod.map_apply, Option.map_some, reread_writable _ hkey.writable,
      reread_writable _ hrevision.writable]
    rfl
  have hread : Definition.ofJson? (Json.reread 3 q.definition.toJson) = _ := Definition.ofJson?_reread h.definition
  rw [q.toJson_eq, reread_present (by decide), hfields, ofJson?_fields h.revision h.savedAt, hread]
  split <;> rfl

end SavedQuery

namespace Store

open Definition

/-- The queries are sorted, and their whole numbers and times can be written. -/
structure Typed (s : Store) : Prop where
  sorted : Sorted s.queries
  queries : ∀ q ∈ s.queries, q.Typed

/-- No definition is nested too deeply for the document. -/
def Fits (s : Store) : Prop :=
  ∀ q ∈ s.queries, q.definition.Fits

instance (s : Store) : Decidable s.Fits :=
  inferInstanceAs (Decidable (∀ q ∈ s.queries, _))

/-- What is read of the store when it was written. -/
def reread (s : Store) : Store :=
  ⟨s.queries.map SavedQuery.reread⟩

theorem typed_reread {s : Store} (h : s.Typed) : s.reread.Typed :=
  ⟨List.pairwise_map.2 h.sorted, List.forall_mem_map.2 fun q hq => SavedQuery.typed_reread (h.queries q hq)⟩

theorem fits_reread {s : Store} (h : s.Fits) : s.reread.Fits :=
  List.forall_mem_map.2 fun q hq => Definition.fits_reread (h q hq)

theorem ofJson?_reread {s : Store} (h : s.Typed) :
    ofJson? (Json.reread 0 s.toJson) = if s.Fits then some s.reread else none := by
  have hfields : (fields (.arr (s.queries.map SavedQuery.toJson))).map (Prod.map id (Option.map (Json.reread 1))) =
      fields (Json.reread 1 (.arr (s.queries.map SavedQuery.toJson))) := rfl
  have hqueries : asList? SavedQuery.ofJson? (Json.reread 1 (.arr (s.queries.map SavedQuery.toJson))) =
      if s.Fits then some (s.queries.map SavedQuery.reread) else none :=
    asList?_reread (by decide) fun q hq => SavedQuery.ofJson?_reread (h.queries q hq)
  rw [s.toJson_eq, reread_present (by decide), hfields, ofJson?_fields, hqueries]
  split
  · exact congrArg some (ofList_sorted (typed_reread h).sorted)
  · rfl

/-- A file is loaded if every definition in it fits into the document. -/
theorem File.load_written {s : Store} (h : s.Typed) :
    (ofStore s).load = if s.Fits then .ok s.reread else .error .document := by
  have hbreak : ∀ c ∈ "\n".toList, isSpace c = true := List.forall_mem_singleton.2 rfl
  rw [ofStore, load, ofDocument?, document, read?_reread _ hbreak, Option.bind_some, ofJson?_reread h]
  by_cases hfits : s.Fits
  · rw [if_pos hfits, if_pos hfits]
  · rw [if_neg hfits, if_neg hfits]

/-! ## Runs -/

section Steps

variable {s : Store} {f : File} {now : Calendar.DateTime} {o : Operation}

/-- A definition that is too deep for the document is put into it. -/
def Operation.Overfills (o : Operation) : Prop :=
  ∃ d k, o = .save d ∧ SavedUnder d k ∧ ¬d.Fits

theorem mem_insertInto_self (q : SavedQuery) (qs : List SavedQuery) : q ∈ insertInto q qs := by
  fun_induction insertInto q qs with
  | case1 => exact List.mem_singleton_self q
  | case2 r rs _ => exact List.mem_cons_self ..
  | case3 r rs _ _ => exact List.mem_cons_self ..
  | case4 r rs _ _ ih => exact List.mem_cons_of_mem r ih

/-- A query that is saved is in the store. -/
theorem mem_step_save {d : Definition} {k : QueryKey} (h : SavedUnder d k) (s : Store) (now : Calendar.DateTime) :
    ⟨k, d, nextRevision (s.get? k), now⟩ ∈ (s.step now (.save d)).2.queries := by
  rw [step, save, savedUnder_iff.1 h]
  exact mem_insertInto_self _ _

theorem typed_step (h : s.Typed) (hnow : now.Regular) (ho : ∀ d, o = .save d → d.Typed) : (s.step now o).2.Typed := by
  refine ⟨sorted_step h.sorted now o, fun q hq => ?_⟩
  obtain hq | ⟨d, k, hd, -, rfl⟩ := mem_step hq
  · exact h.queries q hq
  · exact ⟨ho d hd, nextRevision_lt _, hnow⟩

/-- A store that fits into its document still does after a step, unless the step overfills it. -/
theorem fits_step_iff (h : s.Fits) : (s.step now o).2.Fits ↔ ¬o.Overfills := by
  constructor
  · rintro hfits ⟨d, k, rfl, hk, hdeep⟩
    exact hdeep (hfits _ (mem_step_save hk s now))
  · intro hfits q hq
    obtain hq | ⟨d, k, hd, hk, rfl⟩ := mem_step hq
    · exact h q hq
    · by_contra hdeep
      exact hfits ⟨d, k, hd, hk, hdeep⟩

/-- A file that cannot be loaded stays as it is, and every operation that loads it fails. -/
theorem File.step_unloadable (h : f.load = .error .document) :
    (f.step now o).2 = f ∧ (o ≠ .reopen → (f.step now o).1 = .failed .document) := by
  cases o with
  | save d =>
    rw [step, save, h]
    exact ⟨rfl, fun _ => rfl⟩
  | get k =>
    rw [step, get?, h]
    exact ⟨rfl, fun _ => rfl⟩
  | list schema =>
    rw [step, list, h]
    exact ⟨rfl, fun _ => rfl⟩
  | delete k =>
    rw [step, delete, h]
    exact ⟨rfl, fun _ => rfl⟩
  | reopen => exact ⟨rfl, fun h => absurd rfl h⟩

/-- A store in memory has no document to load. -/
theorem step_ne_document (s : Store) (now : Calendar.DateTime) (o : Operation) :
    (s.step now o).1 ≠ .failed .document := by
  intro hfailed
  cases o with
  | save d =>
    rw [step, save] at hfailed
    cases hkey : QueryKey.ofDefinition? d <;> (rw [hkey] at hfailed; cases hfailed)
  | get _ | list _ | delete _ | reopen => cases hfailed

/-- The file is loaded as a store that fits into its document. -/
def File.Loadable (f : File) : Prop :=
  ∃ s, f.load = .ok s ∧ s.Typed ∧ s.Fits

theorem File.Loadable.step (h : f.Loadable) (hnow : now.Regular) (htyped : ∀ d, o = .save d → d.Typed)
    (ho : ¬o.Overfills) : (f.step now o).2.Loadable := by
  obtain ⟨s, hload, hs, hfits⟩ := h
  have hs' := typed_step hs hnow htyped
  have hfits' : (s.step now o).2.Fits := (fits_step_iff hfits).2 ho
  obtain ⟨-, hfile | ⟨hfile, -⟩⟩ := step_load hload now o
  · refine ⟨(s.step now o).2.reread, ?_, typed_reread hs', fits_reread hfits'⟩
    rw [hfile, load_written hs', if_pos hfits']
  · rw [hfile]
    exact ⟨s, hload, hs, hfits⟩

theorem File.Loadable.overfilled (h : f.Loadable) (hnow : now.Regular) (htyped : ∀ d, o = .save d → d.Typed)
    (ho : o.Overfills) : (f.step now o).2.load = .error .document := by
  obtain ⟨s, hload, hs, hfits⟩ := h
  have hdeep : ¬(s.step now o).2.Fits := fun hfits' => (fits_step_iff hfits).1 hfits' ho
  obtain ⟨-, hfile | ⟨-, hsame⟩⟩ := step_load hload now o
  · rw [hfile, load_written (typed_step hs hnow htyped), if_neg hdeep]
  · exact absurd (hsame.symm ▸ hfits) hdeep

end Steps

section Runs

variable {clock : Nat → Calendar.DateTime} {ops : List Operation}

/-- Some definition that was too deep for the document was put into it. -/
def Overfilled (ops : List Operation) : Prop :=
  ∃ o ∈ ops, o.Overfills

theorem overfilled_append (ops : List Operation) (o : Operation) :
    Overfilled (ops ++ [o]) ↔ Overfilled ops ∨ o.Overfills := by
  simp [Overfilled, or_and_right, exists_or]

/-- What one operation puts into the document decides for all that follow. -/
theorem load_after_file (hclock : ∀ i, (clock i).Regular) (hops : ∀ d, .save d ∈ ops → d.Typed) :
    (¬Overfilled ops → (after File.step clock .missing ops).Loadable) ∧
      (Overfilled ops → (after File.step clock .missing ops).load = .error .document) := by
  induction ops using List.reverseRecOn with
  | nil => exact ⟨fun _ => ⟨{}, rfl, ⟨List.Pairwise.nil, List.forall_mem_nil _⟩, List.forall_mem_nil _⟩, nofun⟩
  | append_singleton ops o ih =>
    obtain ⟨hok, herror⟩ := ih fun d hd => hops d (List.mem_append_left _ hd)
    have htyped : ∀ d, o = .save d → d.Typed := fun d hd =>
      hops d (List.mem_append_right _ (List.mem_singleton.2 hd.symm))
    rw [after_append, overfilled_append, not_or]
    refine ⟨fun ⟨hops, ho⟩ => (hok hops).step (hclock _) htyped ho, fun hover => ?_⟩
    -- a file that was overfilled before stays, whatever the last operation is; otherwise the last one overfills it
    by_cases hbefore : Overfilled ops
    · rw [(File.step_unloadable (herror hbefore)).1, herror hbefore]
    · exact (hok hbefore).overfilled (hclock _) htyped (hover.resolve_left hbefore)

/-- Every operation that loads the file fails with a definition too deep for the document, and no other does. -/
theorem failed_document_iff (hclock : ∀ i, (clock i).Regular)
    (hops : ∀ d, .save d ∈ ops → ∃ text, (Json.read? text).bind Definition.ofJson? = some d) {o : Operation}
    (ho : o ≠ .reopen) (now : Calendar.DateTime) :
    ((after File.step clock .missing ops).step now o).1 = .failed .document ↔
      ∃ d k, .save d ∈ ops ∧ SavedUnder d k ∧ ¬d.Fits := by
  have htyped : ∀ d, .save d ∈ ops → d.Typed := by
    intro d hd
    obtain ⟨text, hread⟩ := hops d hd
    obtain ⟨j, -, hj⟩ := Option.bind_eq_some_iff.1 hread
    exact Definition.typed_ofJson? hj
  have hover : Overfilled ops ↔ ∃ d k, .save d ∈ ops ∧ SavedUnder d k ∧ ¬d.Fits := by
    constructor
    · rintro ⟨_, hmem, d, k, rfl, hk, hdeep⟩
      exact ⟨d, k, hmem, hk, hdeep⟩
    · rintro ⟨d, k, hmem, hk, hdeep⟩
      exact ⟨_, hmem, d, k, rfl, hk, hdeep⟩
  obtain ⟨hok, herror⟩ := load_after_file hclock htyped
  rw [← hover]
  constructor
  · intro hfailed
    by_contra hfits
    obtain ⟨s, hload, -, -⟩ := hok hfits
    rw [(File.step_load hload now o).1] at hfailed
    exact step_ne_document s now o hfailed
  · intro hover
    exact (File.step_unloadable (herror hover)).2 ho

/-- Lists inside one another, this many. -/
def nest : Nat → Comparand
  | 0 => .null
  | n + 1 => .list [nest n]

/-- A definition whose only condition has no use for its value. -/
def nested (n : Nat) : Definition :=
  { name := some "big", table := "countries",
    conditions := [{ column := "name", operator := .isNull, value := nest n }] }

theorem nesting_nest (n : Nat) : (nest n).nesting = n := by
  induction n with
  | zero => rfl
  | succ n ih => rw [nest, Comparand.nesting, Comparand.listNesting, Comparand.listNesting, ih, Nat.max_zero]

theorem storable_nest {n depth : Nat} (h : depth + n ≤ maxDepth) : (nest n).Storable depth := by
  induction n generalizing depth with
  | zero => exact trivial
  | succ n ih => exact ⟨by omega, ih (by omega), trivial⟩

theorem fits_nested_iff {n : Nat} : (nested n).Fits ↔ n ≤ 121 := by
  have hfits : (nested n).Fits ↔ depthInDocument + 3 + (nest n).nesting ≤ maxDepth := List.forall_mem_singleton
  have hlimit : maxDepth = 127 := rfl
  have hdocument : depthInDocument = 3 := rfl
  rw [hfits, nesting_nest]
  omega

/-- A text of such a definition is read, as long as it stands alone. -/
theorem read_nested {n : Nat} (h : n ≤ 124) :
    (Json.read? (nested n).toJson.compact).bind Definition.ofJson? = some (nested n) := by
  have hlimit : maxDepth = 127 := rfl
  have hstorable : (nest n).Storable (0 + 3) := storable_nest (by omega)
  have hencodes := @encodes_conditions (nested n) 0 (by decide) (List.forall_mem_singleton.2 hstorable) nofun nofun
  rw [read?_compact hencodes.writable, Option.bind_some, hencodes.read]

theorem failed_document_iff_nested :
    let clock : Nat → Calendar.DateTime := fun _ => ⟨0, 0, 0⟩
    let ops : List Operation := [.save (nested 121)]
    (∀ i, (clock i).Regular) ∧
      (∀ d, .save d ∈ ops → ∃ text, (Json.read? text).bind Definition.ofJson? = some d) ∧
      Operation.list none ≠ .reopen ∧
      ((after File.step clock .missing ops).step (clock 1) (.list none)).1 ≠ .failed .document := by
  intro clock ops
  have hclock : ∀ i, (clock i).Regular := fun _ => ⟨by decide, by decide, by decide⟩
  have hops : ∀ d, .save d ∈ ops → ∃ text, (Json.read? text).bind Definition.ofJson? = some d := by
    intro d hd
    obtain rfl : d = nested 121 := by simpa [ops] using hd
    exact ⟨_, read_nested (by decide)⟩
  have hlist : Operation.list none ≠ .reopen := nofun
  refine ⟨hclock, hops, hlist, fun hfailed => ?_⟩
  obtain ⟨d, k, hd, -, hdeep⟩ := (failed_document_iff hclock hops hlist (clock 1)).1 hfailed
  obtain rfl : d = nested 121 := by simpa [ops] using hd
  exact hdeep (fits_nested_iff.2 (by decide))

/-- One list more is saved as well, but nothing is loaded from then on. -/
theorem unloadable_after_save :
    let d := nested 122
    let clock : Nat → Calendar.DateTime := fun _ => ⟨0, 0, 0⟩
    (∀ i, (clock i).Regular) ∧ (Json.read? d.toJson.compact).bind Definition.ofJson? = some d ∧
      (File.missing.step (clock 0) (.save d)).1 = .saved ⟨⟨"public", "countries", "big"⟩, d, 1, clock 0⟩ ∧
      ((after File.step clock .missing [.save d]).step (clock 1) (.list none)).1 = .failed .document := by
  intro d clock
  have hclock : ∀ i, (clock i).Regular := fun _ => ⟨by decide, by decide, by decide⟩
  have hread : (Json.read? d.toJson.compact).bind Definition.ofJson? = some d := read_nested (by decide)
  have hsaved : SavedUnder d ⟨"public", "countries", "big"⟩ := by
    decide
  have hover : Overfilled [.save d] :=
    ⟨_, List.mem_singleton_self _, d, _, rfl, hsaved, fun hfits => absurd (fits_nested_iff.1 hfits) (by decide)⟩
  have htyped : ∀ d', .save d' ∈ [Operation.save d] → d'.Typed := by
    intro d' hd
    obtain rfl : d' = d := by simpa using hd
    obtain ⟨j, -, hj⟩ := Option.bind_eq_some_iff.1 hread
    exact Definition.typed_ofJson? hj
  refine ⟨hclock, hread, ?_, ?_⟩
  · rfl
  · exact (File.step_unloadable ((load_after_file hclock htyped).2 hover)).2 nofun

end Runs

end Store

end SpatialQuery
