import Mathlib.Tactic.Tauto
import SpatialQuery.Proofs.Query.Bindings
import SpatialQuery.Proofs.Query.Occurrences

/-!
Names of `WITH` clauses are found in scope exactly where they are (`Tree.scoped_occurrences`): the places that the
search for bindings gives them agree with the scopes of the grammar.
-/

namespace SpatialQuery.Query

open Token Lexical Reads

/-- One of the bindings has this name and is in scope at this place. -/
def Shadows (ds : List Binding) (table : String) (place : Nat) : Prop :=
  ∃ d ∈ ds, d.name = table ∧ d.stop < place ∧ place ≤ d.start

theorem shadows_append {ds es : List Binding} {table : String} {place : Nat} :
    Shadows (ds ++ es) table place ↔ Shadows ds table place ∨ Shadows es table place := by
  simp only [Shadows, List.mem_append, or_and_right, exists_or]

theorem shadows_cons {d : Binding} {ds : List Binding} {table : String} {place : Nat} :
    Shadows (d :: ds) table place ↔
      (d.name = table ∧ d.stop < place ∧ place ≤ d.start) ∨ Shadows ds table place := by
  simp only [Shadows, List.mem_cons, exists_eq_or_imp]

theorem any_hides {ds : List Binding} {m : Mention} :
    ds.any (·.hides m) = true ↔ Shadows ds m.table m.place := by
  simp only [List.any_eq_true, Binding.hides, Bool.and_eq_true, beq_iff_eq, decide_eq_true_eq,
    Shadows, and_assoc]

/-- Tables that are named between two places, where `scope` is defined outside and `ds` are the
bindings between the places: a table is in scope if it is so from outside or by one of `ds`. -/
structure Scoped (os : List Occurrence) (scope : List String) (ds : List Binding) (low high : Nat) :
    Prop where
  le : low ≤ high
  within : ∀ d ∈ ds, low ≤ d.stop ∧ d.start ≤ high
  placed : ∀ o ∈ os, low < o.mention.place ∧ o.mention.place ≤ high
  defined : ∀ o ∈ os, o.mention.table ∈ o.scope ↔
    o.mention.table ∈ scope ∨ Shadows ds o.mention.table o.mention.place

namespace Scoped

variable {os os' : List Occurrence} {scope : List String} {ds ds' : List Binding}
variable {low mid mid' high : Nat}

theorem nil (h : low ≤ high) : Scoped [] scope [] low high :=
  ⟨h, by simp, by simp, by simp⟩

theorem shadows (h : Scoped os scope ds low high) {table : String} {place : Nat}
    (hs : Shadows ds table place) : low < place ∧ place ≤ high := by
  obtain ⟨d, hd, -, hstop, hstart⟩ := hs
  have hw := h.within d hd
  omega

theorem mono (h : Scoped os scope ds mid mid') (hlow : low ≤ mid) (hhigh : mid' ≤ high) :
    Scoped os scope ds low high where
  le := by
    have := h.le
    omega
  within d hd := by
    have := h.within d hd
    omega
  placed o ho := by
    have := h.placed o ho
    omega
  defined := h.defined

theorem append (h : Scoped os scope ds mid high) (h' : Scoped os' scope ds' low mid')
    (hmid : mid' ≤ mid) : Scoped (os ++ os') scope (ds ++ ds') low high where
  le := by
    have := h.le
    have := h'.le
    omega
  within d hd := by
    have hle := h.le
    have hle' := h'.le
    rcases List.mem_append.1 hd with hd | hd
    · have := h.within d hd
      omega
    · have := h'.within d hd
      omega
  placed o ho := by
    have hle := h.le
    have hle' := h'.le
    rcases List.mem_append.1 ho with ho | ho
    · have := h.placed o ho
      omega
    · have := h'.placed o ho
      omega
  defined o ho := by
    rw [shadows_append]
    -- the bindings of one part are out of scope in the other
    rcases List.mem_append.1 ho with ho | ho
    · have hplace := h.placed o ho
      have hnot : ¬Shadows ds' o.mention.table o.mention.place := by
        intro hs
        have := h'.shadows hs
        omega
      rw [h.defined o ho, or_iff_left hnot]
    · have hplace := h'.placed o ho
      have hnot : ¬Shadows ds o.mention.table o.mention.place := by
        intro hs
        have := h.shadows hs
        omega
      rw [h'.defined o ho, or_iff_right hnot]

/-- The query behind a definition, and the definition, which is in its own scope if it is recursive. -/
theorem define {isRecursive : Bool} {name : String} (es : List Binding) (start : Nat)
    (h : Scoped os (if isRecursive then name :: scope else scope) ds mid high)
    (h' : Scoped os' (name :: scope) (es ++ ds') low mid') (hstart : mid' ≤ start)
    (hmid : start ≤ mid) :
    Scoped (os ++ os') scope
      (⟨name, if isRecursive then high else start, low⟩ :: es ++ (ds ++ ds')) low high := by
  have hle := h.le
  have hle' := h'.le
  refine ⟨by omega, fun d hd => ?_, fun o ho => ?_, fun o ho => ?_⟩
  · -- the new name, the bindings behind the definition, and those inside it
    simp only [List.cons_append, List.mem_cons, List.mem_append] at hd
    rcases hd with rfl | hd | hd | hd
    · dsimp only
      split <;> omega
    · have := h'.within d (List.mem_append_left _ hd)
      omega
    · have := h.within d hd
      omega
    · have := h'.within d (List.mem_append_right _ hd)
      omega
  · rcases List.mem_append.1 ho with ho | ho
    · have := h.placed o ho
      omega
    · have := h'.placed o ho
      omega
  · have hnot {table : String} {place : Nat} (hs : Shadows (es ++ ds') table place) : place ≤ mid' :=
      (h'.shadows hs).2
    simp only [shadows_append] at hnot
    simp only [List.cons_append, shadows_cons, shadows_append]
    -- inside the definition the name is in scope if it is recursive, and behind it always
    rcases List.mem_append.1 ho with ho | ho
    · have hplace := h.placed o ho
      have hes : ¬Shadows es o.mention.table o.mention.place := fun hs => by
        have := hnot (.inl hs)
        omega
      have hds : ¬Shadows ds' o.mention.table o.mention.place := fun hs => by
        have := hnot (.inr hs)
        omega
      rw [h.defined o ho]
      cases isRecursive with
      | false =>
        have hout : ¬o.mention.place ≤ start := by omega
        simp [hes, hds, hout]
      | true =>
        have hin : low < o.mention.place := by omega
        simp only [↓reduceIte, List.mem_cons, hes, hds, hin, hplace.2]
        tauto
    · have hplace := h'.placed o ho
      have hds : ¬Shadows ds o.mention.table o.mention.place := fun hs => by
        have := h.shadows hs
        omega
      have hin : o.mention.place ≤ if isRecursive then high else start := by
        split <;> omega
      rw [h'.defined o ho, shadows_append]
      simp only [List.mem_cons, hds, hplace.1, hin]
      tauto

/-- The same, with the names of columns and the query of the definition apart. -/
theorem definition {os₁ os₂ : List Occurrence} {ds₁ ds₂ : List Binding} {low₁ high₁ low₂ high₂ : Nat}
    {isRecursive : Bool} {name : String} (es : List Binding) (start : Nat)
    (hcolumns : Scoped os₁ (if isRecursive then name :: scope else scope) ds₁ low₁ high₁)
    (hquery : Scoped os₂ (if isRecursive then name :: scope else scope) ds₂ low₂ high₂)
    (h' : Scoped os' (name :: scope) (es ++ ds') low mid') (hstart : mid' ≤ start)
    (hlow : start ≤ low₂) (hmid : high₂ ≤ low₁) (hhigh : high₁ ≤ high) :
    Scoped (os₁ ++ (os₂ ++ os')) scope
      (⟨name, if isRecursive then high else start, low⟩ :: es ++ (ds₁ ++ (ds₂ ++ ds'))) low high := by
  have hdefinition := (hcolumns.append hquery hmid).mono (Nat.le_refl _) hhigh
  have h := define es start hdefinition h' hstart hlow
  rwa [List.append_assoc, List.append_assoc] at h

end Scoped

/-! ## The scopes of a tree -/

theorem Name.length_pos (n : Name) : 0 < n.tokens.length := by
  rw [Name.tokens, List.length_cons]
  omega

theorem Name.place_mention (n : Name) (behind : Nat) :
    (n.mention behind).place = n.tokens.length + behind := by
  rw [Name.mention, Reads.mention]
  split <;> rfl

/-- The table at the front of an item. -/
theorem Scoped.table {os : List Occurrence} {scope : List String} {ds : List Binding}
    {low mid : Nat} (h : Scoped os scope ds low mid) (n : Name) (seen : Bool) :
    Scoped (⟨n.mention mid, scope, seen⟩ :: os) scope ds low (n.tokens.length + mid) := by
  have hle := h.le
  have hpos := n.length_pos
  have hfirst : Scoped [⟨n.mention mid, scope, seen⟩] scope [] mid (n.tokens.length + mid) := by
    refine ⟨by omega, by simp, ?_, ?_⟩
    · simp only [List.mem_singleton, forall_eq, n.place_mention]
      omega
    · simp [Shadows]
  exact hfirst.append h (Nat.le_refl mid)

namespace Tree

/-- All names that a part defines. -/
def names {p : Part} (t : Tree p) (behind : Nat) : List Binding :=
  match p, t with
  | .definitions _, ds => ds.heads behind ++ ds.own behind
  | _, t => t.own behind

theorem scoped_occurrences {p : Part} (t : Tree p) (n : Nat) (scope : List String) (seen : Bool) :
    Scoped (t.occurrences n scope seen) scope (t.names n) n (t.size + n) := by
  induction t generalizing n scope seen with
  | done | noColumns | noLabel | noClause | stop => exact .nil (by omega)
  | word _ _ ih | distinct _ _ _ _ ih | zone _ _ _ _ ih | argument _ _ ih | clause _ _ ih
  | select _ _ ih | withNames _ _ ih | withRecursive _ _ _ ih =>
    exact (ih n scope false).mono (by omega)
      (by simp only [size, tokens, List.length_cons]; omega)
  | plain body ih => exact ih n scope false
  | columns inner ih =>
    exact (ih (n + 1) scope false).mono (by omega)
      (by simp only [size, tokens, List.length_append, List.length_cons]; omega)
  | label as single name cs ih =>
    exact (ih n scope false).mono (by omega)
      (by simp only [size, tokens, List.length_append, List.length_cons]; omega)
  | group inner rest ihi ih | subquery inner rest ihi ih | operand inner rest ihi ih =>
    have hinner := ihi (rest.size + n + 1) scope false
    exact (hinner.append (ih n scope false) (by omega)).mono (by omega)
      (by simp only [size, tokens, List.length_append, List.length_cons]; omega)
  | table marks name l ih =>
    exact ((ih n scope false).table name seen).mono (by omega)
      (by simp only [size, tokens, List.length_append]; omega)
  | call marks name args l iha ih =>
    have hargs := iha (l.size + n + 1) scope false
    exact (hargs.append (ih n scope false) (by omega)).mono (by omega)
      (by simp only [size, tokens, List.length_append, List.length_cons]; omega)
  | derived marks q l ihq ih =>
    have hq := ihq (l.size + n + 1) scope false
    exact (hq.append (ih n scope false) (by omega)).mono (by omega)
      (by simp only [size, tokens, List.length_append, List.length_cons]; omega)
  | nested first joins l ihf ihj ih =>
    have hfirst := ihf (joins.size + (l.size + n + 1)) scope false
    have hjoins := ihj (l.size + n + 1) scope false
    exact (hfirst.append (hjoins.append (ih n scope false) (by omega)) (by omega)).mono (by omega)
      (by simp only [size, tokens, List.length_append, List.length_cons]; omega)
  | join kind k right condition rest ihr ihc ih =>
    have hright := ihr (condition.size + (rest.size + n)) scope true
    have hcondition := ihc (rest.size + n) scope false
    exact (hright.append (hcondition.append (ih n scope false) (by omega)) (by omega)).mono (by omega)
      (by simp only [size, tokens, List.length_append, List.length_cons]; omega)
  | comma next rest ihn ih =>
    have hnext := ihn (rest.size + n) scope seen
    exact (hnext.append (ih n scope seen) (by omega)).mono (by omega)
      (by simp only [size, tokens, List.length_append, List.length_cons]; omega)
  | selectFrom k list fr first more clauses ihl ihf ihm ih =>
    have hlist := ihl (first.size + (more.size + (clauses.size + n)) + 1) scope false
    have hfirst := ihf (more.size + (clauses.size + n)) scope (!isDistinctFrom list.tokens.reverse)
    have hmore := ihm (clauses.size + n) scope (!isDistinctFrom list.tokens.reverse)
    have hfrom := hfirst.append (hmore.append (ih n scope false) (by omega)) (by omega)
    exact (hlist.append hfrom (by omega)).mono (by omega)
      (by simp only [size, tokens, List.length_append, List.length_cons]; omega)
  | combined left op mode right ihl ih =>
    have hleft := ihl (mode.length + (right.size + n) + 1) scope false
    refine (hleft.append (ih n scope false) (by omega)).mono (by omega) ?_
    simp only [size, tokens, List.length_append, List.length_cons, length_keywordTokens]
    omega
  | last d cs q body ihc ihq ih =>
    exact .definition [] (body.size + n) (ihc _ _ false) (ihq _ _ false) (ih n _ false) (Nat.le_refl _)
      (by omega) (by omega) (by simp only [size, tokens, List.length_append, List.length_cons]; omega)
  | define d cs q rest ihc ihq ih =>
    exact .definition (rest.heads n) (rest.size + n + 1) (ihc _ _ false) (ihq _ _ false) (ih n _ false)
      (by omega) (by omega) (by omega)
      (by simp only [size, tokens, List.length_append, List.length_cons]; omega)

/-- A table that a query names means what the bindings found in its tokens say. -/
theorem resolve_mention (q : Tree .query) (defaultSchema : String) {o : Occurrence}
    (ho : o ∈ q.occurrences 0 [] false) :
    resolve (bindings q.tokens) defaultSchema o.mention = o.relation? defaultSchema := by
  have hdefined := (q.scoped_occurrences 0 [] false).defined o ho
  rw [resolve, Occurrence.relation?]
  cases o.mention.schema with
  | some schema => rfl
  | none =>
    have hhides : (bindings q.tokens).any (·.hides o.mention) = true ↔
        o.mention.table ∈ o.scope := by
      rw [any_hides, q.bindings_query, hdefined, or_iff_right List.not_mem_nil]
      exact Iff.rfl
    simp only [hhides]

end Tree

end SpatialQuery.Query
