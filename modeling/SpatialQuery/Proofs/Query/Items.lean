import SpatialQuery.Proofs.Query.Bindings
import SpatialQuery.Proofs.Query.Occurrences

/-!
Lists of items as the search reads them: it takes the table at the front of each item, and goes on
where a comma follows the item directly (`Tree.fromList_items`).
-/

namespace SpatialQuery.Query

open Token Lexical Reads

/-! ## What follows an item -/

/-- The token belongs neither to a name in front of it nor to a label. -/
def isStop (t : Token) : Bool :=
  !t.isPunct '(' && !t.isPunct '.' && !t.isKeyword "as" && !isAlias t

def Stops (ts : List Token) : Prop :=
  ∀ t ∈ ts.head?, isStop t = true

theorem isStop_iff {t : Token} : isStop t = true ↔
    t.isPunct '(' = false ∧ t.isPunct '.' = false ∧ t.isKeyword "as" = false ∧ isAlias t = false := by
  simp [isStop, and_assoc]

theorem stops_comma (ts : List Token) : Stops (comma :: ts) := by
  intro t ht
  cases ht
  decide

theorem stops_close (ts : List Token) : Stops (closeParen :: ts) := by
  intro t ht
  cases ht
  decide

theorem isAnyKeyword_mono {t : Token} {words others : List String} (h : t.isAnyKeyword words = true)
    (hsub : words ⊆ others) : t.isAnyKeyword others = true := by
  obtain ⟨a, ha, hk⟩ := List.any_eq_true.1 h
  exact List.any_eq_true.2 ⟨a, hsub ha, hk⟩

theorem isStop_of_clause {t : Token} (h : t.isAnyKeyword clauseKeywords = true) :
    isStop t = true := by
  have hkind := word_of_isAnyKeyword h
  have has : t.isAnyKeyword ["as"] = false := not_isAnyKeyword h (by decide)
  have hpunct := isPunct_of_kind (.inl hkind)
  refine isStop_iff.2 ⟨hpunct _, hpunct _, isKeyword_of_isAnyKeyword has (by decide), ?_⟩
  simp [isAlias, hkind, h]

theorem Keyword.stops {words : List String} (k : Keyword words) (h : words ⊆ clauseKeywords)
    (ts : List Token) : Stops (k.token :: ts) := by
  intro t ht
  cases ht
  exact isStop_of_clause (isAnyKeyword_mono k.spelled h)

/-- Nor does a list of items go on here. -/
def Ends (ts : List Token) : Prop :=
  Stops ts ∧ ∀ t ∈ ts.head?, t.isPunct ',' = false

theorem ends_nil : Ends [] :=
  ⟨nofun, nofun⟩

theorem ends_close (ts : List Token) : Ends (closeParen :: ts) := by
  refine ⟨stops_close ts, ?_⟩
  intro t ht
  cases ht
  rfl

theorem Keyword.ends {words : List String} (k : Keyword words) (h : words ⊆ clauseKeywords)
    (ts : List Token) : Ends (k.token :: ts) := by
  refine ⟨k.stops h ts, ?_⟩
  intro t ht
  cases ht
  exact k.isPunct _

theorem JoinKind.stops (kind : JoinKind) (k : Keyword ["join"]) (ts : List Token) :
    Stops (keywordTokens kind.words ++ k.token :: ts) := by
  have hfirst := kind.first
  cases hwords : kind.words with
  | nil => exact k.stops (by decide) ts
  | cons w ws =>
    rw [hwords] at hfirst
    have houter := hfirst w rfl
    have hsub : ["inner", "left", "right", "full", "cross", "natural"] ⊆ clauseKeywords := by decide
    intro t ht
    cases ht
    have hw := w.spelled
    refine isStop_of_clause (isAnyKeyword_mono ?_ hsub)
    simpa [isAnyKeyword, houter] using hw

theorem openings_subset (joined : Bool) : openings joined ⊆ clauseKeywords := by
  cases joined <;> decide

theorem Tree.stops_clause {j : Bool} (c : Tree (.clause j)) {k : List Token} (hk : Stops k) :
    Stops (c.tokens ++ k) := by
  cases c with
  | noClause => exact hk
  | clause w e => exact w.stops (openings_subset j) _

theorem Tree.ends_clause {j : Bool} (c : Tree (.clause j)) {k : List Token} (hk : Ends k) :
    Ends (c.tokens ++ k) := by
  cases c with
  | noClause => exact hk
  | clause w e => exact w.ends (openings_subset j) _

theorem Tree.stops_more {c : Bool} (m : Tree (.more c)) {k : List Token} (hk : Stops k) :
    Stops (m.tokens ++ k) := by
  cases m with
  | stop => exact hk
  | join kind w right condition rest =>
    rw [tokens, List.append_assoc]
    exact kind.stops w _
  | comma next rest => exact stops_comma _

/-! ## Names and labels -/

theorem nameParts_others (others : List Ident) {k : List Token}
    (hk : ∀ t ∈ k.head?, t.isPunct '.' = false) :
    nameParts ((others.flatMap fun i => [dot, i.token]) ++ k) = (others.map Ident.name, k) := by
  induction others with
  | nil =>
    match k, hk with
    | [], _ => rfl
    | [_], _ => rfl
    | t :: u :: k, hk =>
      have ht := hk t rfl
      simp [nameParts, ht]
  | cons i others ih =>
    have hdot : dot.isPunct '.' = true := rfl
    simp [nameParts, hdot, i.name?_eq, ih]

theorem Ident.isAlias (i : Ident) : isAlias i.token = true := by
  have hclause : i.token.isAnyKeyword clauseKeywords = false := i.isAnyKeyword_false (by decide)
  rcases i.kind with h | h <;> simp [Reads.isAlias, h, hclause]

theorem Tree.skipAlias_label (l : Tree .label) {k : List Token} (hk : Stops k) :
    skipAlias (l.tokens ++ k) = k := by
  have hstop (t : Token) (ht : t ∈ k.head?) := isStop_iff.1 (hk t ht)
  cases l with
  | noLabel =>
    cases k with
    | nil => rfl
    | cons t k =>
      obtain ⟨-, -, has, halias⟩ := hstop t rfl
      simp [tokens, skipAlias, skipToken, has, halias]
  | label as single name cs =>
    have has : skipToken (·.isKeyword "as") (keywordTokens as ++ name.token :: (cs.tokens ++ k)) =
        name.token :: (cs.tokens ++ k) := by
      refine skipToken_keywordTokens single ?_
      simp [name.isKeyword_false (a := "as") (by decide)]
    have hgroup := skipGroup_columns cs fun t ht => (hstop t ht).1
    simp [tokens, skipAlias, has, name.isAlias, hgroup]

/-! ## Items -/

theorem dropWhile_marks (marks : List (Keyword ["lateral", "only"])) {t : Token}
    (ht : t.isAnyKeyword ["lateral", "only"] = false) (ts : List Token) :
    (keywordTokens marks ++ t :: ts).dropWhile (·.isAnyKeyword ["lateral", "only"]) = t :: ts := by
  induction marks with
  | nil => simp [keywordTokens, ht]
  | cons mark marks ih =>
    rw [keywordTokens, List.map_cons, List.cons_append,
      List.dropWhile_cons_of_pos (by simpa using mark.spelled)]
    exact ih

/-- The tokens behind a name do not go on with it. -/
def Leaves (ts : List Token) : Prop :=
  ∀ t ∈ ts.head?, t.isPunct '(' = false ∧ t.isPunct '.' = false

theorem Tree.leaves_label (l : Tree .label) {k : List Token} (hk : Stops k) :
    Leaves (l.tokens ++ k) := by
  cases l with
  | noLabel => exact fun t ht => ⟨(isStop_iff.1 (hk t ht)).1, (isStop_iff.1 (hk t ht)).2.1⟩
  | label as single name cs =>
    cases as with
    | nil => simp [Leaves, tokens, keywordTokens]
    | cons a as => simp [Leaves, tokens, keywordTokens]

theorem item?_name (n : Name) {k : List Token} (hk : Leaves k) :
    item? (n.tokens ++ k) = some (some (n.mention k.length), k) := by
  have hparts := nameParts_others n.others fun t ht => (hk t ht).2
  have hplace : ((n.others.flatMap fun i => [dot, i.token]) ++ k).length + 1 =
      n.tokens.length + k.length := by
    rw [Name.tokens, List.length_append, List.length_cons]
    omega
  rw [Name.tokens, List.cons_append, item?]
  simp only [n.first.isPunct, n.first.name?_eq, hparts, hplace]
  cases k with
  | nil => rfl
  | cons t k =>
    have ht := (hk t rfl).1
    simp only [ht, Bool.false_eq_true, ↓reduceIte]
    rfl

theorem item?_call (n : Name) {ts : List Token} (h : Balanced ts) (k : List Token) :
    item? (n.tokens ++ openParen :: (ts ++ closeParen :: k)) = some (none, k) := by
  have hopen : openParen.isPunct '(' = true := rfl
  have hparts := nameParts_others n.others (k := openParen :: (ts ++ closeParen :: k))
    (by simp [openParen, Token.isPunct])
  rw [Name.tokens, List.cons_append, item?]
  simp [n.first.name?_eq, hparts, hopen, leaveGroup_group h]

theorem item?_group {ts : List Token} (h : Balanced ts) (k : List Token) :
    item? (openParen :: (ts ++ closeParen :: k)) = some (none, k) := by
  have hopen : openParen.isPunct '(' = true := rfl
  simp [item?, hopen, leaveGroup_group h]

namespace Tree

/-- The tables at the front of the items that a list goes on with. -/
def fronts : {p : Part} → Tree p → (behind : Nat) → List Mention
  | _, table _ name l, n => [name.mention (l.size + n)]
  | _, comma next rest, n => next.fronts (rest.size + n) ++ rest.fronts n
  | _, _, _ => []

/-- An item is read up to its label, and the label is skipped. -/
theorem item?_tokens (i : Tree .item) {k : List Token} (hk : Stops k) : ∃ found rest,
    item? ((i.tokens ++ k).dropWhile (·.isAnyKeyword ["lateral", "only"])) = some (found, rest) ∧
      found.toList = i.fronts k.length ∧ skipAlias rest = k := by
  have hname (n : Name) : n.first.token.isAnyKeyword ["lateral", "only"] = false :=
    n.first.isAnyKeyword_false (by decide)
  have hopen : openParen.isAnyKeyword ["lateral", "only"] = false := rfl
  cases i with
  | table marks name l =>
    refine ⟨some (name.mention (l.tokens ++ k).length), l.tokens ++ k, ?_, ?_, l.skipAlias_label hk⟩
    · rw [← item?_name name (l.leaves_label hk)]
      simp only [tokens, List.append_assoc]
      exact congrArg item? (dropWhile_marks marks (hname name) _)
    · rw [List.length_append]
      rfl
  | call marks name args l =>
    refine ⟨none, l.tokens ++ k, ?_, rfl, l.skipAlias_label hk⟩
    rw [← item?_call name args.balanced]
    simp only [tokens, List.append_assoc, List.cons_append]
    exact congrArg item? (dropWhile_marks marks (hname name) _)
  | derived marks q l =>
    refine ⟨none, l.tokens ++ k, ?_, rfl, l.skipAlias_label hk⟩
    rw [← item?_group q.balanced]
    simp only [tokens, List.append_assoc, List.cons_append]
    exact congrArg item? (dropWhile_marks marks hopen _)
  | nested first joins l =>
    refine ⟨none, l.tokens ++ k, ?_, rfl, l.skipAlias_label hk⟩
    rw [← item?_group (first.balanced.append joins.balanced)]
    simp only [tokens, List.append_assoc, List.cons_append]
    exact congrArg item? (dropWhile_marks [] hopen _)

end Tree

theorem fromList_eq {commas : Bool} {ts rest : List Token} {found : Option Mention}
    (h : item? (ts.dropWhile (·.isAnyKeyword ["lateral", "only"])) = some (found, rest)) :
    fromList commas ts = found.toList ++
      match skipAlias rest with
      | t :: more => if commas && t.isPunct ',' then fromList commas more else []
      | [] => [] := by
  rw [fromList]
  split
  · rename_i h'
    rw [h] at h'
    cases h'
  · rename_i h'
    rw [h] at h'
    cases h'
    congr 1
    split <;> rename_i heq <;> rw [heq]

theorem fromList_item (commas : Bool) (i : Tree .item) {k : List Token} (hk : Stops k) :
    fromList commas (i.tokens ++ k) = i.fronts k.length ++
      match k with
      | t :: more => if commas && t.isPunct ',' then fromList commas more else []
      | [] => [] := by
  obtain ⟨found, rest, hitem, hfound, hrest⟩ := i.item?_tokens hk
  rw [fromList_eq hitem, hrest, hfound]
  cases k <;> rfl

theorem fromList_only {commas : Bool} (i : Tree .item) {k : List Token} (hk : Stops k)
    (hcomma : commas = true → ∀ t ∈ k.head?, t.isPunct ',' = false) :
    fromList commas (i.tokens ++ k) = i.fronts k.length := by
  rw [fromList_item commas i hk]
  cases k with
  | nil => simp
  | cons t k =>
    cases commas with
    | false => simp
    | true => simp [hcomma rfl t rfl]

theorem fromList_joined (i : Tree .item) {k : List Token} (hk : Stops k) :
    fromList false (i.tokens ++ k) = i.fronts k.length :=
  fromList_only i hk nofun

/-- A list is read up to its first join. -/
theorem fromList_items {p : Part} (more : Tree p) (hp : p = .more true) (i : Tree .item)
    {k : List Token} (hk : Stops k) (hcomma : ∀ t ∈ k.head?, t.isPunct ',' = false) :
    fromList true (i.tokens ++ (more.tokens ++ k)) =
      i.fronts (more.size + k.length) ++ more.fronts k.length := by
  induction more generalizing i with
  | @stop c =>
    rw [Tree.tokens, List.nil_append, fromList_only i hk fun _ => hcomma]
    simp [Tree.size, Tree.tokens, Tree.fronts]
  | @join c kind w right condition rest =>
    have hstops := (Tree.join (c := c) kind w right condition rest).stops_more hk
    have hhead : ∀ t ∈ ((Tree.join (c := c) kind w right condition rest).tokens ++ k).head?,
        t.isPunct ',' = false := by
      cases hwords : kind.words <;> simp [Tree.tokens, hwords, keywordTokens]
    rw [fromList_only i hstops fun _ => hhead, List.length_append]
    exact (List.append_nil _).symm
  | comma next rest _ ih =>
    have hstops : Stops ((Tree.comma next rest).tokens ++ k) := stops_comma _
    have hc : comma.isPunct ',' = true := rfl
    rw [fromList_item true i hstops, List.length_append, Tree.fronts, ← ih rfl next]
    simp only [Tree.tokens, List.cons_append, List.append_assoc, hc, Bool.and_self, ↓reduceIte]
    rfl
  | _ => cases hp

end SpatialQuery.Query
