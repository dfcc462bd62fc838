import SpatialQuery.Proofs.Query.Nested
import SpatialQuery.Proofs.Query.Search

/-!
The search for relations in tokens that stand elsewhere. It finds the same at the end of a text and in front of the
parenthesis that closes a group around, if the groups inside are closed, and it does not look at the texts of
literals (`mentions_embed`, `bindings_embed`).
-/

namespace SpatialQuery.Query

open Token Lexical Reads

/-- At most the texts of literals are changed. -/
structure Faithful (f : Token → Token) : Prop where
  kind : ∀ t, (f t).kind = t.kind
  text : ∀ t, t.kind ≠ .stringLiteral → (f t).text = t.text

theorem faithful_id : Faithful id :=
  ⟨fun _ => rfl, fun _ _ => rfl⟩

/-- Nothing is left of the text of a literal. -/
def emptied (t : Token) : Token :=
  if t.kind = .stringLiteral then ⟨.stringLiteral, []⟩ else t

theorem emptied_literal {t : Token} (h : t.kind = .stringLiteral) : emptied t = ⟨.stringLiteral, []⟩ :=
  if_pos h

theorem faithful_emptied : Faithful emptied where
  kind t := by
    unfold emptied
    split
    · exact (‹t.kind = .stringLiteral›).symm
    · rfl
  text t ht := by rw [emptied, if_neg ht]

namespace Faithful

variable {f : Token → Token} (hf : Faithful f) (t : Token)

include hf

theorem isPunct (c : Char) : (f t).isPunct c = t.isPunct c := by
  rw [Token.isPunct, hf.kind]
  rfl

theorem isKeyword (a : String) : (f t).isKeyword a = t.isKeyword a := by
  rw [Token.isKeyword, Token.isKeyword, hf.kind]
  by_cases hk : t.kind = .word
  · rw [hf.text t (by simp [hk])]
  · rw [beq_false_of_ne hk]
    rfl

theorem isAnyKeyword (ws : List String) : (f t).isAnyKeyword ws = t.isAnyKeyword ws := by
  rw [Token.isAnyKeyword, Token.isAnyKeyword, funext (hf.isKeyword t)]

theorem name? : (f t).name? = t.name? := by
  rw [Token.name?, Token.name?, hf.kind]
  cases hk : t.kind with
  | word => rw [hf.text t (by simp [hk])]
  | quotedIdentifier => rw [hf.text t (by simp [hk])]
  | _ => rfl

theorem isAlias : Reads.isAlias (f t) = Reads.isAlias t := by
  rw [Reads.isAlias, Reads.isAlias, hf.kind, hf.isAnyKeyword]

end Faithful

/-! ## Steps of the search -/

/-- The place with so many more tokens behind it. -/
def shift (n : Nat) (m : Mention) : Mention :=
  { m with place := m.place + n }

def shiftBinding (n : Nat) (d : Binding) : Binding :=
  { d with start := d.start + n, stop := d.stop + n }

theorem mention_shift (first : String) (others : List String) (place n : Nat) :
    mention first others (place + n) = shift n (mention first others place) := by
  unfold mention
  split <;> rfl

section Embedding

variable {f : Token → Token} (hf : Faithful f) {k : List Token}
  (hk : ∀ t ∈ k.head?, t.isPunct ')' = true) {depth : Nat} {ts : List Token}

theorem length_embed : (ts.map f ++ k).length = ts.length + k.length := by
  rw [List.length_append, List.length_map]

include hf hk

theorem groupEnd_embed {e : Nat} (hle : e ≤ depth) (h : Fits k depth ts) :
    groupEnd e (ts.map f ++ k) = (groupEnd e ts).map f ++ k := by
  induction ts generalizing e depth with
  | nil =>
    cases k with
    | nil => rfl
    | cons c k =>
      -- The parenthesis that closes the query closes no group of its own.
      have hc := hk c rfl
      have hdepth : depth = 0 := by simpa [isNested] using h (List.cons_ne_nil c k)
      obtain rfl : e = 0 := by omega
      simp [groupEnd, hc, not_open_of_close hc]
  | cons t ts ih =>
    rw [List.map_cons, List.cons_append, groupEnd.eq_def, groupEnd.eq_def e (t :: ts)]
    dsimp only
    rw [hf.isPunct, hf.isPunct]
    cases ho : t.isPunct '(' with
    | true => exact ih (Nat.succ_le_succ hle) ((fits_open ho).1 h)
    | false =>
      cases hc : t.isPunct ')' with
      | false => exact ih hle ((fits_flat ho hc).1 h)
      | true =>
        cases e with
        | zero => rfl
        | succ e =>
          obtain ⟨depth, rfl⟩ := Nat.exists_eq_add_of_lt hle
          exact ih (Nat.le_add_right e depth) ((fits_close hc).1 h)

theorem leaveGroup_embed (h : Fits k (depth + 1) ts) :
    leaveGroup (ts.map f ++ k) = (leaveGroup ts).map f ++ k := by
  rw [leaveGroup, leaveGroup, groupEnd_embed hf hk (Nat.zero_le _) h]
  by_cases hne : k = []
  · rw [hne, List.append_nil, List.append_nil, List.map_drop]
  · have hnested := h hne
    rw [Nat.add_comm, ← Nat.zero_add 1] at hnested
    obtain ⟨t, us, hend, -⟩ := isNested_groupEnd hnested
    rw [hend]
    rfl

theorem skipKeyword_embed (a : String) :
    skipToken (·.isKeyword a) (ts.map f ++ k) = (skipToken (·.isKeyword a) ts).map f ++ k := by
  cases ts with
  | nil =>
    cases k with
    | nil => rfl
    | cons c k =>
      have hc : c.isKeyword a = false := isKeyword_of_close (hk c rfl) a
      simp [skipToken, hc]
  | cons t ts =>
    simp only [List.map_cons, List.cons_append, skipToken, hf.isKeyword]
    split <;> rfl

theorem skipGroup_embed (h : Fits k depth ts) : skipGroup (ts.map f ++ k) = (skipGroup ts).map f ++ k := by
  cases ts with
  | nil =>
    cases k with
    | nil => rfl
    | cons c k => simp [skipGroup, not_open_of_close (hk c rfl)]
  | cons t ts =>
    simp only [List.map_cons, List.cons_append, skipGroup, hf.isPunct]
    split
    · exact leaveGroup_embed hf hk ((fits_open ‹_›).1 h)
    · rfl

theorem dropWhile_embed (ws : List String) : (ts.map f ++ k).dropWhile (·.isAnyKeyword ws) =
    (ts.dropWhile (·.isAnyKeyword ws)).map f ++ k := by
  induction ts with
  | nil =>
    cases k with
    | nil => rfl
    | cons c k =>
      have hc : c.isAnyKeyword ws = false := isAnyKeyword_of_close (hk c rfl) ws
      simp [hc]
  | cons t ts ih =>
    rw [List.map_cons, List.cons_append, List.dropWhile_cons, List.dropWhile_cons, hf.isAnyKeyword]
    split
    · exact ih
    · rfl

theorem nameParts_embed :
    nameParts (ts.map f ++ k) = ((nameParts ts).1, (nameParts ts).2.map f ++ k) := by
  fun_induction nameParts ts with
  | case1 dot t ts hdot part hname ih =>
    simp [nameParts, hf.isPunct, hf.name?, hdot, hname, ih]
  | case2 dot t ts hdot hname =>
    simp [nameParts, hf.isPunct, hf.name?, hdot, hname]
  | case3 dot t ts hdot =>
    simp [nameParts, hf.isPunct, hdot]
  | case4 ts hshort =>
    -- no two tokens, so that the parenthesis behind is no part of a name
    cases ts with
    | nil =>
      cases k with
      | nil => rfl
      | cons c k =>
        have hdot := isPunct_of_close (hk c rfl) (show '.' ≠ ')' by decide)
        cases k <;> simp [nameParts, hdot]
    | cons t ts =>
      cases ts with
      | nil =>
        cases k with
        | nil => rfl
        | cons c k => simp [nameParts, name?_of_close (hk c rfl)]
      | cons u ts => exact absurd rfl (hshort t u ts)

theorem item?_embed (h : Fits k depth ts) : item? (ts.map f ++ k) =
    (item? ts).map fun (m, rest) => (m.map (shift k.length), rest.map f ++ k) := by
  cases ts with
  | nil =>
    cases k with
    | nil => rfl
    | cons c k => simp [item?, not_open_of_close (hk c rfl), name?_of_close (hk c rfl)]
  | cons t ts =>
    rw [List.map_cons, List.cons_append, item?, item?, hf.isPunct]
    cases ho : t.isPunct '(' with
    | true =>
      have hleave := leaveGroup_embed hf hk ((fits_open ho).1 h)
      simp [hleave]
    | false =>
      rw [hf.name?]
      cases hname : t.name? with
      | none => rfl
      | some first =>
        have hrest := ((fits_named (by rw [hname]; rfl)).1 h).nameParts
        simp only [Bool.false_eq_true, if_false, nameParts_embed hf hk]
        -- places are counted from the end of the tokens
        have hplace : (ts.map f ++ k).length + 1 = ts.length + 1 + k.length := by
          rw [length_embed]
          omega
        have hmention := mention_shift first (nameParts ts).1 (ts.length + 1) k.length
        rw [hplace, hmention]
        cases hparts : (nameParts ts).2 with
        | nil =>
          cases k with
          | nil => rfl
          | cons c k => simp [not_open_of_close (hk c rfl)]
        | cons r rs =>
          rw [hparts] at hrest
          simp only [List.map_cons, List.cons_append, hf.isPunct]
          split
          · rw [leaveGroup_embed hf hk ((fits_open ‹_›).1 hrest)]
            rfl
          · rfl

theorem skipAlias_embed (h : Fits k depth ts) : skipAlias (ts.map f ++ k) = (skipAlias ts).map f ++ k := by
  have hrest := h.skipKeyword "as"
  rw [skipAlias, skipAlias, skipKeyword_embed hf hk]
  generalize skipToken (·.isKeyword "as") ts = us at hrest
  cases us with
  | nil =>
    cases k with
    | nil => rfl
    | cons c k => simp [isAlias_of_close (hk c rfl)]
  | cons t us =>
    simp only [List.map_cons, List.cons_append, hf.isAlias]
    split
    · rename_i halias
      exact skipGroup_embed hf hk ((fits_alias halias).1 hrest)
    · rfl

omit hf hk in
theorem fromList_none {commas : Bool} (h : item? (ts.dropWhile (·.isAnyKeyword ["lateral", "only"])) = none) :
    fromList commas ts = [] := by
  rw [fromList]
  split
  · rfl
  · rename_i h'
    rw [h] at h'
    cases h'

theorem fromList_embed (commas : Bool) (h : Fits k depth ts) :
    fromList commas (ts.map f ++ k) = (fromList commas ts).map (shift k.length) := by
  -- over the length, since an item is passed as a whole
  induction hn : ts.length using Nat.strong_induction_on generalizing ts with
  | _ n ih =>
    have hdrop := h.dropWhile ["lateral", "only"]
    have hembed := item?_embed hf hk hdrop
    rw [← dropWhile_embed hf hk] at hembed
    cases hitem : item? (ts.dropWhile (·.isAnyKeyword ["lateral", "only"])) with
    | none =>
      rw [hitem] at hembed
      rw [fromList_none hembed, fromList_none hitem]
      rfl
    | some found =>
      obtain ⟨m, rest⟩ := found
      rw [hitem] at hembed
      have hrest := hdrop.item? hitem
      have hbehind := hrest.skipAlias
      have hlength := length_skipAlias_le rest
      have hitemLength := length_of_item? hitem
      have hdropLength := (List.dropWhile_suffix (·.isAnyKeyword ["lateral", "only"]) (l := ts)).length_le
      rw [fromList_eq hembed, fromList_eq hitem, skipAlias_embed hf hk hrest, List.map_append, Option.toList_map]
      congr 1
      cases hskip : skipAlias rest with
      | nil =>
        cases k with
        | nil => rfl
        | cons c k =>
          have hcomma := isPunct_of_close (hk c rfl) (show ',' ≠ ')' by decide)
          simp [hcomma]
      | cons t more =>
        rw [hskip] at hbehind hlength
        simp only [List.map_cons, List.cons_append, hf.isPunct]
        split
        · rename_i hcomma
          have hmore := (fits_comma (Bool.and_eq_true_iff.1 hcomma).2).1 hbehind
          rw [List.length_cons] at hlength
          exact ih more.length (by omega) hmore rfl
        · rfl

theorem afterBinding?_embed (h : Fits k depth ts) :
    afterBinding? (ts.map f ++ k) = (afterBinding? ts).map fun rest => rest.map f ++ k := by
  have hgroup := h.skipGroup
  rw [afterBinding?, afterBinding?, skipGroup_embed hf hk h]
  generalize skipGroup ts = us at hgroup
  cases us with
  | nil =>
    cases k with
    | nil => rfl
    | cons c k => simp [isKeyword_of_close (hk c rfl)]
  | cons t body =>
    simp only [List.map_cons, List.cons_append, hf.isKeyword, skipKeyword_embed hf hk]
    split
    · have hbody := ((((fits_keyword ‹_›).1 hgroup).skipKeyword "not").skipKeyword "materialized")
      generalize skipToken (·.isKeyword "materialized") (skipToken (·.isKeyword "not") body) = vs at hbody
      cases vs with
      | nil =>
        cases k with
        | nil => rfl
        | cons c k => simp [not_open_of_close (hk c rfl)]
      | cons p query =>
        simp only [List.map_cons, List.cons_append, hf.isPunct]
        split
        · rw [leaveGroup_embed hf hk ((fits_open ‹_›).1 hbody)]
          rfl
        · rfl
    · rfl

omit hf hk in
theorem bindingList_of_name?_eq_none {isRecursive : Bool} {stop : Nat} {t : Token} (h : t.name? = none) :
    bindingList isRecursive stop (t :: ts) = [] := by
  rw [bindingList, h]

omit hf hk in
theorem bindingList_of_afterBinding?_eq_none {isRecursive : Bool} {stop : Nat} {t : Token}
    (h : afterBinding? ts = none) : bindingList isRecursive stop (t :: ts) = [] := by
  rw [bindingList]
  split
  · rfl
  · split
    · rfl
    · rename_i h'
      rw [h] at h'
      cases h'

theorem bindingList_embed (isRecursive : Bool) (stop : Nat) (h : Fits k depth ts) :
    bindingList isRecursive (stop + k.length) (ts.map f ++ k) =
      (bindingList isRecursive stop ts).map (shiftBinding k.length) := by
  -- over the length, since a definition is passed as a whole
  induction hn : ts.length using Nat.strong_induction_on generalizing ts with
  | _ n ih =>
    cases ts with
    | nil =>
      -- what stands behind the tokens begins with a closing parenthesis, which is no name
      cases k with
      | nil => simp [bindingList]
      | cons c k =>
        rw [List.map_nil, List.nil_append, bindingList_of_name?_eq_none (name?_of_close (hk c rfl)), bindingList]
        rfl
    | cons t rest =>
      rw [List.map_cons, List.cons_append]
      cases hname : t.name? with
      | none =>
        rw [bindingList_of_name?_eq_none (by rw [hf.name?, hname]), bindingList_of_name?_eq_none hname]
        rfl
      | some name =>
        have hflat := (fits_named (by rw [hname]; rfl)).1 h
        have hafter := afterBinding?_embed hf hk hflat
        cases hbehind : afterBinding? rest with
        | none =>
          rw [hbehind] at hafter
          rw [bindingList_of_afterBinding?_eq_none hafter, bindingList_of_afterBinding?_eq_none hbehind]
          rfl
        | some behind =>
          rw [hbehind] at hafter
          have hfits := hflat.afterBinding? hbehind
          have hlength := length_of_afterBinding? hbehind
          rw [bindingList_cons (by rw [hf.name?, hname]) hafter, bindingList_cons hname hbehind, List.map_cons,
            length_embed, length_embed]
          congr 1
          · cases isRecursive with
            | true => simp only [shiftBinding, if_true]; congr 1; omega
            | false => rfl
          · cases behind with
            | nil =>
              cases k with
              | nil => rfl
              | cons c k =>
                have hcomma := isPunct_of_close (hk c rfl) (show ',' ≠ ')' by decide)
                simp [hcomma]
            | cons comma more =>
              simp only [List.map_cons, List.cons_append, hf.isPunct]
              split
              · rename_i hcomma
                simp only [List.length_cons] at hlength hn
                exact ih more.length (by omega) ((fits_comma hcomma).1 hfits) rfl
              · rfl

theorem head?_embed (a : String) :
    (ts.map f ++ k).head?.any (·.isKeyword a) = ts.head?.any (·.isKeyword a) := by
  cases ts with
  | nil =>
    cases k with
    | nil => rfl
    | cons c k => exact isKeyword_of_close (hk c rfl) a
  | cons t ts => exact hf.isKeyword t a

/-- The names that `WITH` clauses define, with the places behind. -/
theorem bindings_embed (h : Fits k depth ts) :
    bindings (ts.map f ++ k) = (bindings ts).map (shiftBinding k.length) ++ bindings k := by
  induction ts generalizing depth with
  | nil => rfl
  | cons t ts ih =>
    obtain ⟨d, htail⟩ := h.tail
    rw [List.map_cons, List.cons_append, bindings, bindings, hf.isKeyword, ih htail, List.map_append,
      List.append_assoc]
    split
    · rename_i hwith
      have hflat := (fits_keyword hwith).1 h
      rw [head?_embed hf hk, groupEnd_embed hf hk (Nat.zero_le _) hflat, length_embed, skipKeyword_embed hf hk,
        bindingList_embed hf hk _ _ (hflat.skipKeyword "recursive")]
    · rfl

omit hf hk in
/-- An opening parenthesis in front is no part of `IS DISTINCT`. -/
theorem isDistinctFrom_embed (hf : Faithful f) {around : List Token} (ho : ∀ t ∈ around.head?, t.isPunct '(' = true)
    (before : List Token) : isDistinctFrom (before.map f ++ around) = isDistinctFrom before := by
  have hword : ∀ t ∈ around.head?, ∀ a, t.isKeyword a = false := by
    intro t ht a
    have hkind : t.kind = .punct '(' := eq_of_beq (ho t ht)
    rw [isKeyword, hkind]
    rfl
  cases before with
  | nil =>
    rcases around with _ | ⟨t, _ | ⟨u, around⟩⟩
    · rfl
    · rfl
    · simp [isDistinctFrom, hword t rfl]
  | cons t before =>
    cases before with
    | nil =>
      cases around with
      | nil => rfl
      | cons u around => simp [isDistinctFrom, hword u rfl]
    | cons u before => simp [isDistinctFrom, hf.isKeyword]

/-- The names in the place of relations, with the places behind. Nothing is found behind the tokens. -/
theorem mentions_embed {around : List Token} (ho : ∀ t ∈ around.head?, t.isPunct '(' = true) {outside : List Bool}
    (houtside : k = [] → outside = []) (hend : ∀ before here, mentions before here outside k = [])
    (before : List Token) (here : Bool) (outer : List Bool) (h : Fits k outer.length ts) :
    mentions (before.map f ++ around) here (outer ++ outside) (ts.map f ++ k) =
      (mentions before here outer ts).map (shift k.length) := by
  induction ts generalizing before here outer with
  | nil =>
    have houter : mentions (before.map f ++ around) here (outer ++ outside) k = [] := by
      by_cases hne : k = []
      · rw [hne]
        rfl
      · have hlength : outer.length = 0 := by simpa [isNested] using h hne
        rw [List.length_eq_zero_iff.1 hlength]
        exact hend _ _
    exact houter
  | cons t ts ih =>
    obtain ⟨d, htail⟩ := h.tail
    have hstep := ih (t :: before)
    rw [List.map_cons, List.cons_append] at hstep
    rw [List.map_cons, List.cons_append, mentions.eq_def, mentions.eq_def before here outer (t :: ts)]
    simp only [hf.isPunct, hf.isKeyword, isDistinctFrom_embed hf ho]
    cases hopen : t.isPunct '(' with
    | true => exact hstep false (here :: outer) ((fits_open hopen).1 h)
    | false =>
      cases hclose : t.isPunct ')' with
      | true =>
        cases outer with
        | nil =>
          -- a parenthesis that closes more than was opened ends the whole text
          have hnil : k = [] := by
            by_contra hne
            exact absurd (h hne) (by simp [isNested_close_zero hclose])
          have hrest := hstep here [] (fun hne => absurd hnil hne)
          rw [houtside hnil] at hrest ⊢
          exact hrest
        | cons a outer => exact hstep a outer ((fits_close hclose).1 h)
      | false =>
        have hflat := (fits_flat hopen hclose).1 h
        simp only [Bool.false_eq_true, if_false, fromList_embed hf hk _ htail, hstep _ _ hflat]
        split
        · rfl
        · split
          · rw [List.map_append]
            split <;> rfl
          · split
            · rw [List.map_append]
            · rfl

end Embedding

/-! ## Relations -/

/-- A name is hidden or not by the places of its definitions in relation to its own. -/
theorem resolve_shift (ds : List Binding) (defaultSchema : String) (n : Nat) (m : Mention) :
    resolve (ds.map (shiftBinding n)) defaultSchema (shift n m) = resolve ds defaultSchema m := by
  have hhides : (fun d => Binding.hides d (shift n m)) ∘ shiftBinding n = fun d => Binding.hides d m := by
    funext d
    simp [Binding.hides, shift, shiftBinding]
  rw [resolve, resolve, List.any_map, hhides]
  rfl

theorem filterMap_resolve_shift (ds : List Binding) (defaultSchema : String) (n : Nat) (ms : List Mention) :
    (ms.map (shift n)).filterMap (resolve (ds.map (shiftBinding n)) defaultSchema) =
      ms.filterMap (resolve ds defaultSchema) := by
  rw [List.filterMap_map]
  congr 1
  funext m
  exact resolve_shift ds defaultSchema n m

end SpatialQuery.Query
