import SpatialQuery.Proofs.Query.Syntax

/-!
The tokens of a query, one by one. Most are quiet: no search stops at them. The others are parentheses
and the keywords that begin a query, a list of items or a `WITH` clause.
-/

namespace SpatialQuery.Query

open Token Lexical Reads

/-- The words at which a search stops. -/
def loud : List String := ["select", "from", "join", "table", "with"]

theorem isPunct_of_kind {t : Token} (h : t.kind = .word ∨ t.kind = .quotedIdentifier) (c : Char) :
    t.isPunct c = false := by
  rcases h with h | h <;> simp [isPunct, h]

/-! ## Quiet tokens -/

theorem isQuiet_iff {t : Token} : isQuiet t = true ↔
    t.isPunct '(' = false ∧ t.isPunct ')' = false ∧ t.isAnyKeyword loud = false := by
  simp [isQuiet, loud, and_assoc]

theorem isQuiet_of_kind {t : Token} (h : t.kind = .word ∨ t.kind = .quotedIdentifier)
    (hloud : t.isAnyKeyword loud = false) : isQuiet t = true :=
  isQuiet_iff.2 ⟨isPunct_of_kind h _, isPunct_of_kind h _, hloud⟩

namespace Keyword

variable {words : List String} (k : Keyword words)

theorem kind : k.token.kind = .word :=
  word_of_isAnyKeyword k.spelled

@[simp] theorem isPunct (c : Char) : k.token.isPunct c = false :=
  isPunct_of_kind (.inl k.kind) c

theorem isAnyKeyword_false {others : List String} (h : apart words others = true) :
    k.token.isAnyKeyword others = false :=
  not_isAnyKeyword k.spelled h

theorem isKeyword_false {a : String} (h : apart words [a] = true) : k.token.isKeyword a = false :=
  isKeyword_of_isAnyKeyword (k.isAnyKeyword_false h) (List.mem_singleton_self a)

theorem isKeyword_true {a : String} (k : Keyword [a]) : k.token.isKeyword a = true := by
  simpa [isAnyKeyword] using k.spelled

theorem isQuiet (h : apart words loud = true) : Query.isQuiet k.token = true :=
  isQuiet_of_kind (.inl k.kind) (k.isAnyKeyword_false h)

end Keyword

namespace Ident

variable (i : Ident)

theorem name?_eq : i.token.name? = some i.name :=
  (Option.some_get i.named).symm

theorem kind : i.token.kind = .word ∨ i.token.kind = .quotedIdentifier := by
  have h := i.named
  rw [Token.name?] at h
  split at h
  · exact .inl ‹_›
  · exact .inr ‹_›
  · cases h

@[simp] theorem isPunct (c : Char) : i.token.isPunct c = false :=
  isPunct_of_kind i.kind c

theorem isAnyKeyword_false {words : List String} (h : words ⊆ reserved) :
    i.token.isAnyKeyword words = false :=
  isAnyKeyword_of_subset i.free h

theorem isKeyword_false {a : String} (h : a ∈ reserved) : i.token.isKeyword a = false :=
  isKeyword_of_isAnyKeyword i.free h

@[simp] theorem isQuiet : Query.isQuiet i.token = true :=
  isQuiet_of_kind i.kind (i.isAnyKeyword_false (by decide))

end Ident

@[simp] theorem isQuiet_comma : isQuiet comma = true := by decide

@[simp] theorem isQuiet_dot : isQuiet dot = true := by decide

/-! ## Quiet lists -/

def Quiet (ts : List Token) : Prop :=
  ∀ t ∈ ts, isQuiet t = true

theorem quiet_cons {t : Token} {ts : List Token} (h : isQuiet t = true) (hs : Quiet ts) :
    Quiet (t :: ts) :=
  List.forall_mem_cons.2 ⟨h, hs⟩

theorem Quiet.append {ts us : List Token} (ht : Quiet ts) (hu : Quiet us) : Quiet (ts ++ us) :=
  List.forall_mem_append.2 ⟨ht, hu⟩

theorem quiet_keywordTokens {words : List String} (h : apart words loud = true)
    (ks : List (Keyword words)) : Quiet (keywordTokens ks) := by
  intro t ht
  obtain ⟨k, -, rfl⟩ := List.mem_map.1 ht
  exact k.isQuiet h

theorem length_keywordTokens {words : List String} (ks : List (Keyword words)) :
    (keywordTokens ks).length = ks.length :=
  List.length_map _

theorem Name.quiet (n : Name) : Quiet n.tokens := by
  refine quiet_cons n.first.isQuiet fun t ht => ?_
  obtain ⟨i, -, hi⟩ := List.mem_flatMap.1 ht
  rw [List.mem_cons, List.mem_singleton] at hi
  rcases hi with rfl | rfl
  · exact isQuiet_dot
  · exact i.isQuiet

theorem Definition.quiet_words (d : Definition) : Quiet d.words :=
  quiet_cons (d.as.isQuiet (by decide))
    ((quiet_keywordTokens (by decide) _).append (quiet_keywordTokens (by decide) _))

theorem apart_openings (joined : Bool) : apart (openings joined) loud = true := by
  cases joined <;> decide

end SpatialQuery.Query
