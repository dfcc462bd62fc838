import SpatialQuery.Proofs.Query.Words

/-!
The parentheses of a query are balanced, so a search for the end of a group passes over whole parts of
a query (`Tree.balanced`).
-/

namespace SpatialQuery.Query

open Token Lexical Reads

/-- The end of a group is not in here, however many groups are open. -/
def Balanced (ts : List Token) : Prop :=
  ∀ depth k, groupEnd depth (ts ++ k) = groupEnd depth k

theorem balanced_nil : Balanced [] :=
  fun _ _ => rfl

theorem balanced_cons {t : Token} {ts : List Token} (ho : t.isPunct '(' = false)
    (hc : t.isPunct ')' = false) (h : Balanced ts) : Balanced (t :: ts) := by
  intro depth k
  rw [List.cons_append, groupEnd.eq_def]
  simp only [ho, hc, Bool.false_eq_true, ↓reduceIte]
  exact h depth k

theorem Balanced.append {ts us : List Token} (ht : Balanced ts) (hu : Balanced us) :
    Balanced (ts ++ us) := by
  intro depth k
  rw [List.append_assoc, ht, hu]

theorem Quiet.balanced {ts : List Token} (h : Quiet ts) : Balanced ts := by
  induction ts with
  | nil => exact balanced_nil
  | cons t ts ih =>
    have ht := isQuiet_iff.1 (h t List.mem_cons_self)
    exact balanced_cons ht.1 ht.2.1 (ih fun u hu => h u (List.mem_cons_of_mem t hu))

theorem groupEnd_open (depth : Nat) (ts : List Token) :
    groupEnd depth (openParen :: ts) = groupEnd (depth + 1) ts := rfl

theorem groupEnd_close (depth : Nat) (ts : List Token) :
    groupEnd (depth + 1) (closeParen :: ts) = groupEnd depth ts := rfl

theorem balanced_group {ts us : List Token} (ht : Balanced ts) (hu : Balanced us) :
    Balanced (openParen :: (ts ++ closeParen :: us)) := by
  intro depth k
  rw [List.cons_append, List.append_assoc, groupEnd_open, ht, List.cons_append, groupEnd_close, hu]

theorem Keyword.balanced {words : List String} (k : Keyword words) {ts : List Token}
    (h : Balanced ts) : Balanced (k.token :: ts) :=
  balanced_cons (k.isPunct _) (k.isPunct _) h

theorem balanced_keywordTokens {words : List String} (ks : List (Keyword words)) :
    Balanced (keywordTokens ks) := by
  induction ks with
  | nil => exact balanced_nil
  | cons k ks ih => exact k.balanced ih

theorem Ident.balanced (i : Ident) {ts : List Token} (h : Balanced ts) : Balanced (i.token :: ts) :=
  balanced_cons (i.isPunct _) (i.isPunct _) h

theorem balanced_comma {ts : List Token} (h : Balanced ts) : Balanced (comma :: ts) :=
  balanced_cons rfl rfl h

theorem Word.balanced (w : Word) {ts : List Token} (h : Balanced ts) : Balanced (w.token :: ts) :=
  have hw := isQuiet_iff.1 w.quiet
  balanced_cons hw.1 hw.2.1 h

theorem Tree.balanced {p : Part} (t : Tree p) : Balanced t.tokens := by
  induction t with
  | done => exact balanced_nil
  | word w rest ih => exact w.balanced ih
  | distinct is d fr rest ih => exact is.balanced (d.balanced (fr.balanced ih))
  | zone w time z rest ih => exact w.balanced (time.balanced (z.balanced ih))
  | argument fr rest ih => exact fr.balanced ih
  | group inner rest ihi ih => exact balanced_group ihi ih
  | subquery q rest ihq ih => exact balanced_group ihq ih
  | noColumns => exact balanced_nil
  | columns inner ih => exact balanced_group ih balanced_nil
  | noLabel => exact balanced_nil
  | label as single name cs ih => exact (balanced_keywordTokens as).append (name.balanced ih)
  | table marks name l ih =>
    exact (balanced_keywordTokens marks).append (name.quiet.balanced.append ih)
  | call marks name args l iha ih =>
    exact (balanced_keywordTokens marks).append (name.quiet.balanced.append (balanced_group iha ih))
  | derived marks q l ihq ih => exact (balanced_keywordTokens marks).append (balanced_group ihq ih)
  | nested first joins l ihf ihj ih =>
    have h := balanced_group (ihf.append ihj) ih
    rwa [List.append_assoc] at h
  | noClause => exact balanced_nil
  | clause k e ih => exact k.balanced ih
  | stop => exact balanced_nil
  | join kind k right condition rest ihr ihc ih =>
    exact (balanced_keywordTokens kind.words).append (k.balanced (ihr.append (ihc.append ih)))
  | comma next rest ihn ih => exact balanced_comma (ihn.append ih)
  | select k list ih => exact k.balanced ih
  | selectFrom k list fr first more clauses ihl ihf ihm ih =>
    exact k.balanced (ihl.append (fr.balanced (ihf.append (ihm.append ih))))
  | operand q clauses ihq ih => exact balanced_group ihq ih
  | combined left op mode right ihl ih =>
    exact ihl.append (op.balanced ((balanced_keywordTokens mode).append ih))
  | last d cs q body ihc ihq ih =>
    exact d.name.balanced (ihc.append (d.quiet_words.balanced.append (balanced_group ihq ih)))
  | define d cs q rest ihc ihq ih =>
    exact d.name.balanced
      (ihc.append (d.quiet_words.balanced.append (balanced_group ihq (balanced_comma ih))))
  | plain body ih => exact ih
  | withNames k ds ih => exact k.balanced ih
  | withRecursive k r ds ih => exact k.balanced (r.balanced ih)

theorem groupEnd_group {ts : List Token} (h : Balanced ts) (k : List Token) :
    groupEnd 0 (ts ++ closeParen :: k) = closeParen :: k := by
  rw [h]
  rfl

theorem leaveGroup_group {ts : List Token} (h : Balanced ts) (k : List Token) :
    leaveGroup (ts ++ closeParen :: k) = k := by
  rw [leaveGroup, groupEnd_group h]
  rfl

end SpatialQuery.Query
