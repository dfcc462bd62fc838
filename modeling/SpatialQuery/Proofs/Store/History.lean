import Mathlib.Data.List.Sort
import SpatialQuery.Proofs.Store.Order

/-!
What a store has to answer after a history of operations (`Expected`). The history says which definitions were saved
under a key since it was last deleted (`saves`), and there is one right answer to every operation
(`Expected.unique`).
-/

namespace SpatialQuery.Store

/-- What is asked of a store. -/
inductive Operation where
  | save (d : Definition)
  | get (k : QueryKey)
  | list (schema : Option String)
  | delete (k : QueryKey)
  /-- The store is opened anew. -/
  | reopen

/-- A saved query without the time when it was saved. -/
structure Entry where
  key : QueryKey
  definition : Definition
  revision : Nat

inductive Answer (α : Type) where
  | saved (q : α)
  | found (q : Option α)
  | listed (qs : List α)
  | deleted (found : Bool)
  | failed (e : Error)
  | reopened

def Answer.map {α β : Type} (f : α → β) : Answer α → Answer β
  | .saved q => .saved (f q)
  | .found q => .found (q.map f)
  | .listed qs => .listed (qs.map f)
  | .deleted b => .deleted b
  | .failed e => .failed e
  | .reopened => .reopened

def Answer.isFailed {α : Type} : Answer α → Bool
  | .failed _ => true
  | _ => false

/-! ## Histories -/

/-- A definition is saved under its relation and its name, without the blanks around the name. -/
def SavedUnder (d : Definition) (k : QueryKey) : Prop :=
  ∃ name, d.name = some name ∧ Text.trim name ≠ "" ∧ k = ⟨d.schema, d.table, Text.trim name⟩

theorem savedUnder_iff {d : Definition} {k : QueryKey} :
    SavedUnder d k ↔ QueryKey.ofDefinition? d = some k := by
  unfold SavedUnder QueryKey.ofDefinition?
  cases d.name with
  | none => simp
  | some name =>
    rw [Option.map_some, Option.getD_some]
    constructor
    · rintro ⟨_, ⟨⟩, hname, rfl⟩
      exact if_neg hname
    · intro h
      obtain ⟨hname, hk⟩ := Option.ite_none_left_eq_some.1 h
      exact ⟨name, rfl, hname, (Option.some.inj hk).symm⟩

instance (d : Definition) (k : QueryKey) : Decidable (SavedUnder d k) :=
  decidable_of_iff _ savedUnder_iff.symm

/-- The definitions under a key after one more operation. -/
def savesAfter (k : QueryKey) (ds : List Definition) : Operation → List Definition
  | .save d => if SavedUnder d k then ds ++ [d] else ds
  | .delete k' => if k' = k then [] else ds
  | _ => ds

/-- The definitions that were saved under a key since it was last deleted, the last of them at the end. -/
def saves (k : QueryKey) (ops : List Operation) : List Definition :=
  ops.foldl (savesAfter k) []

theorem saves_append (k : QueryKey) (ops : List Operation) (o : Operation) :
    saves k (ops ++ [o]) = savesAfter k (saves k ops) o :=
  List.foldl_concat ..

/-- What is under a key: the last definition, and how many there were. Revisions have 64 bits. -/
def live? (ops : List Operation) (k : QueryKey) : Option Entry :=
  (saves k ops).getLast?.map fun d => ⟨k, d, (saves k ops).length % UInt64.size⟩

/-- The right answer to an operation after a history. -/
inductive Expected (ops : List Operation) : Operation → Answer Entry → Prop
  | saved {d : Definition} {k : QueryKey} {e : Entry} : SavedUnder d k → live? (ops ++ [.save d]) k = some e →
      Expected ops (.save d) (.saved e)
  | unnamed {d : Definition} : (∀ k, ¬SavedUnder d k) → Expected ops (.save d) (.failed .unnamed)
  | found (k : QueryKey) : Expected ops (.get k) (.found (live? ops k))
  /-- Each entry once, in the order of the keys. -/
  | listed {schema : Option String} {es : List Entry} : es.Pairwise (fun e e' => e.key.parts < e'.key.parts) →
      (∀ e, e ∈ es ↔ live? ops e.key = some e ∧ ∀ s ∈ schema, e.key.schema = s) →
      Expected ops (.list schema) (.listed es)
  | deleted (k : QueryKey) : Expected ops (.delete k) (.deleted (live? ops k).isSome)
  | reopened : Expected ops .reopen .reopened

theorem Expected.unique {ops : List Operation} {o : Operation} {a b : Answer Entry} (ha : Expected ops o a)
    (hb : Expected ops o b) : a = b := by
  cases ha with
  | saved hk he =>
    cases hb with
    | saved hk' he' =>
      obtain rfl := Option.some.inj ((savedUnder_iff.1 hk).symm.trans (savedUnder_iff.1 hk'))
      rw [Option.some.inj (he.symm.trans he')]
    | unnamed hno => exact absurd hk (hno _)
  | unnamed hno =>
    cases hb with
    | saved hk' _ => exact absurd hk' (hno _)
    | unnamed _ => rfl
  | found k => cases hb; rfl
  | listed hsorted hmem =>
    cases hb with
    | listed hsorted' hmem' =>
      have : Std.Irrefl fun e e' : Entry => e.key.parts < e'.key.parts := ⟨fun e => lt_irrefl e.key.parts⟩
      have : Std.Antisymm fun e e' : Entry => e.key.parts < e'.key.parts :=
        ⟨fun _ _ h h' => absurd h (lt_asymm h')⟩
      rw [hsorted.eq_of_mem_iff hsorted' fun e => (hmem e).trans (hmem' e).symm]
  | deleted k => cases hb; rfl
  | reopened => cases hb; rfl

end SpatialQuery.Store
