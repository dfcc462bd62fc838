import SpatialQuery.Proofs.Definition.Compiled
import SpatialQuery.Proofs.Naming.Rule
import SpatialQuery.Proofs.Rendering.Limits
import SpatialQuery.Proofs.Rendering.Queries

/-!
What the naming rule reads from a statement that was written from its parts: an entry for every item, and a range for
every relation (`reading?_statement`). Only an item that is a wildcard without a qualifier and has a label is no item of
SQL.
-/

namespace SpatialQuery.Naming

open Token Lexical RowLimit Sql Fragment
open Definition (IsColumnwise)

/-! ## Tokens of fragments -/

theorem isPunct_tokens {c : Char} {fs : List Fragment} (h : symbol c ∉ fs) (index : Nat) :
    ∀ t ∈ tokens index fs, t.isPunct c = false := by
  intro t ht
  obtain ⟨f, hf, i, hi⟩ := mem_tokens ht
  cases f with
  | symbol d =>
    cases hi
    have hne : d ≠ c := by
      rintro rfl
      exact h hf
    simpa [isPunct] using hne
  | blank => cases hi
  | _ =>
    cases hi
    rfl

theorem isKeyword_tokens {ws : List String} {w : String} (hapart : Lexical.apart ws [w] = true) {fs : List Fragment}
    (h : ∀ f ∈ fs, f.isKnown ws = true) (index : Nat) : ∀ t ∈ tokens index fs, t.isKeyword w = false :=
  fun t ht => isKeyword_of_isAnyKeyword (isAnyKeyword_tokens hapart h t ht) (List.mem_singleton_self w)

/-- Behind fragments whose parentheses match, the count goes on as before. -/
theorem levels_tokens {fs : List Fragment} (h : Grouped fs) (index depth : Nat) (us : List Token) :
    levels depth (tokens index fs ++ us) = levels depth (tokens index fs) ++ levels depth us := by
  rw [levels_append, depth_tokens h]

/-- Without parentheses the count stays as it is. -/
theorem levels_flat {ts : List Token} (hopen : ∀ t ∈ ts, t.isPunct '(' = false)
    (hclose : ∀ t ∈ ts, t.isPunct ')' = false) (depth : Nat) : levels depth ts = ts.map (·, depth) := by
  induction ts with
  | nil => rfl
  | cons t ts ih =>
    rw [List.forall_mem_cons] at hopen hclose
    have hstep : depthStep depth t = depth := by
      rw [depthStep, hopen.1, hclose.1]
      rfl
    rw [levels, hstep, Nat.max_self, ih hopen.2 hclose.2]
    rfl

/-! ## Items -/

/-- The functions of a select list. -/
def functionWords : List String :=
  ["COUNT", "SUM", "AVG", "MIN", "MAX", "ST_Extent", "ST_Union", "ST_Collect"]

/-- An item without its label. -/
def expressionOf (i : Item) : List Fragment :=
  match i.aggregate with
  | some a => call a.function [i.column.fragments]
  | none => i.column.fragments

theorem fragments_item (i : Item) : i.fragments = labelled (expressionOf i) i.label :=
  rfl

theorem expression_expressionOf (i : Item) : Expression functionWords (expressionOf i) :=
  expression_aggregate (by intro a; cases a <;> decide) i.aggregate i.column

/-- The entry of an item without its label. -/
def plainEntry (i : Item) : Entry :=
  match i.aggregate, i.column.column with
  | some a, _ => .named (Text.lower a.function)
  | none, some column => .named column.name
  | none, none => .star (i.column.qualifier.map (·.name))

def entryOfItem? (i : Item) : Option Entry :=
  match i.label with
  | none => some (plainEntry i)
  | some label => (plainEntry i).labelled? label.name

theorem symbol_column {c : Char} (hdot : c ≠ '.') (hstar : c ≠ '*') (r : ColumnRef) : symbol c ∉ r.fragments := by
  obtain ⟨qualifier, column⟩ := r
  cases column <;> simp [ColumnRef.fragments, hdot, hstar]

theorem dotted?_column (c : ColumnRef) (qualifier : List String) (index : Nat) :
    dotted? qualifier (tokens index c.fragments) = some (match c.column with
      | some column => .named column.name
      | none => .star (qualifier ++ c.qualifier.map (·.name))) := by
  obtain ⟨names, column⟩ := c
  induction names generalizing qualifier with
  | nil =>
    cases column with
    | none => simp [ColumnRef.fragments, tokens, token?, dotted?, isPunct]
    | some i =>
      change dotted? qualifier [nameToken i] = _
      rw [dotted?, name?_nameToken]
      rfl
  | cons i names ih =>
    have htokens : tokens index (ColumnRef.fragments ⟨i :: names, column⟩) =
        nameToken i :: ⟨.punct '.', ['.']⟩ :: tokens index (ColumnRef.fragments ⟨names, column⟩) := rfl
    have hdot : (⟨.punct '.', ['.']⟩ : Token).isPunct '.' = true := rfl
    rw [htokens, dotted?, if_pos hdot, name?_nameToken, Option.bind_some, ih]
    simp

theorem callee?_column (c : ColumnRef) (index : Nat) : callee? (levels 0 (tokens index c.fragments)) = none := by
  obtain ⟨names, column⟩ := c
  cases names with
  | nil => cases column <;> rfl
  | cons i names => cases names <;> rfl

/-- What stands between the parentheses is inside of them. -/
theorem callee?_call (f : String) (c : ColumnRef) (index : Nat) :
    callee? (levels 0 (tokens index (call f [c.fragments]))) = some (Text.lower f) := by
  have hcolumn : Expression [] c.fragments := expression_column c
  have hinside : levels 1 (tokens index c.fragments) = (tokens index c.fragments).map (·, 1) :=
    levels_flat (isPunct_tokens (symbol_column (by decide) (by decide) c) index)
      (isPunct_tokens (symbol_column (by decide) (by decide) c) index) 1
  have hlevels : levels 0 (tokens index (call f [c.fragments])) = (⟨.word, f.toList⟩, 0) :: (openParen, 1) ::
      ((tokens index c.fragments).map (·, 1) ++ [(closeParen, 1)]) := by
    rw [call, commaList_singleton, ← hinside]
    change _ :: _ :: levels 1 (tokens index (c.fragments ++ [symbol ')'])) = _
    rw [tokens_append, levels_tokens hcolumn.grouped]
    rfl
  have hopen : openParen.isPunct '(' = true := rfl
  rw [hlevels, callee?, hopen]
  simp [name?, Text.lower]

theorem expression?_item (i : Item) (index : Nat) :
    expression? (levels 0 (tokens index (expressionOf i))) = some (plainEntry i) := by
  unfold expressionOf plainEntry expression?
  cases i.aggregate with
  | some a => rw [callee?_call]
  | none =>
    rw [callee?_column, map_fst_levels, dotted?_column]
    cases i.column.column <;> rfl

theorem entryOf?_item (i : Item) (index : Nat) : entryOf? (levels 0 (tokens index i.fragments)) = entryOfItem? i := by
  have hknown := (expression_expressionOf i).known
  have hnone : ∀ x ∈ levels 0 (tokens index (expressionOf i)), onTop (·.isKeyword "as") x = false :=
    not_onTop (isKeyword_tokens (by decide) hknown index) 0
  rw [fragments_item, entryOfItem?]
  cases i.label with
  | none =>
    change entryOf? (levels 0 (tokens index (expressionOf i))) = _
    rw [entryOf?, parts_of_none hnone]
    exact expression?_item i index
  | some label =>
    have hlevels : levels 0 (tokens index (labelled (expressionOf i) (some label))) =
        levels 0 (tokens index (expressionOf i)) ++ (⟨.word, "AS".toList⟩, 0) :: [(nameToken label, 0)] := by
      rw [labelled, tokens_append, levels_tokens (expression_expressionOf i).grouped]
      rfl
    have hname : ∀ x ∈ [(nameToken label, 0)], onTop (·.isKeyword "as") x = false := by
      rw [List.forall_mem_singleton]
      rfl
    rw [hlevels, entryOf?, parts_append rfl, parts_of_none hnone, parts_of_none hname]
    change (nameToken label).name?.bind _ = _
    rw [name?_nameToken, expression?_item]
    rfl

theorem no_comma_item (i : Item) : symbol ',' ∉ i.fragments := by
  have hcolumn : symbol ',' ∉ i.column.fragments := symbol_column (by decide) (by decide) i.column
  have hexpression : symbol ',' ∉ expressionOf i := by
    unfold expressionOf
    cases i.aggregate with
    | none => exact hcolumn
    | some a => simp [call, commaList_singleton, hcolumn]
  rw [fragments_item]
  cases i.label with
  | none => exact hexpression
  | some label => simp [labelled, hexpression]

/-- An entry for every item, in their order. -/
theorem selectList?_items (i : Item) (items : List Item) (index : Nat) :
    selectList? (levels 0 (tokens index (commaList ((i :: items).map (·.fragments))))) =
      (i :: items).mapM entryOfItem? := by
  have hnone : ∀ (i : Item) (index : Nat), ∀ x ∈ levels 0 (tokens index i.fragments), onTop isComma x = false :=
    fun i index => not_onTop (isPunct_tokens (no_comma_item i) index) 0
  induction items generalizing i index with
  | nil =>
    rw [List.map_singleton, commaList_singleton, selectList?, parts_of_none (hnone i index), List.mapM_cons,
      entryOf?_item]
    rfl
  | cons j items ih =>
    have hlevels : levels 0 (tokens index (commaList ((i :: j :: items).map (·.fragments)))) =
        levels 0 (tokens index i.fragments) ++ (⟨.punct ',', [',']⟩, 0) ::
          levels 0 (tokens (i.fragments.foldl next index) (commaList ((j :: items).map (·.fragments)))) := by
      rw [List.map_cons, List.map_cons, commaList_cons_cons, tokens_append, levels_tokens (expression_item i).grouped]
      rfl
    rw [hlevels, selectList?, parts_append rfl, parts_of_none (hnone i index), List.singleton_append, List.mapM_cons,
      entryOf?_item, ← selectList?, ih]
    exact List.mapM_cons.symm

/-! ## Relations -/

def rangeOf (s : Source) : Range :=
  ⟨s.relation, s.label.map (·.name)⟩

theorem expression_labels (s : Source) : Expression ["AS"] s.fragments :=
  expression_labelled (List.mem_singleton_self _) (expression_column ⟨[s.schema], some s.table⟩) s.label

/-- A source is read up to the next word of a join. -/
theorem range?_source (s : Source) {us : List Token} (h : ∀ u ∈ us.head?, isJoinWord u = true) (index : Nat) :
    range? ((tokens index s.fragments ++ us).takeWhile fun t => !isJoinWord t) = some (rangeOf s) := by
  have hnone : ∀ t ∈ tokens index s.fragments, (!isJoinWord t) = true := fun t ht => by
    rw [isJoinWord, isAnyKeyword_tokens (by decide) (expression_labels s).known t ht]
    rfl
  have hstop : us.takeWhile (fun t => !isJoinWord t) = [] := by
    cases us with
    | nil => rfl
    | cons u us => rw [List.takeWhile_cons_of_neg (by rw [h u rfl]; decide)]
  rw [List.takeWhile_append_of_pos hnone, hstop, List.append_nil]
  obtain ⟨schema, table, label⟩ := s
  cases label with
  | none =>
    change range? [nameToken schema, ⟨.punct '.', ['.']⟩, nameToken table] = _
    rw [range?, name?_nameToken, name?_nameToken]
    rfl
  | some label =>
    change range? [nameToken schema, ⟨.punct '.', ['.']⟩, nameToken table, ⟨.word, "AS".toList⟩, nameToken label] = _
    rw [range?, name?_nameToken, name?_nameToken, name?_nameToken]
    rfl

/-- A condition that compares columns has no words but `ON`, and no commas. -/
theorem segment_columnwise {condition : Option Predicate} (h : IsColumnwise condition) :
    Segment ["ON"] ["ON"] (conditionClause "ON" condition) ∧ symbol ',' ∉ conditionClause "ON" condition := by
  cases condition with
  | none => exact ⟨.nil, List.not_mem_nil⟩
  | some p =>
    obtain ⟨c, a, b, rfl⟩ := h p rfl
    have hcompare : Expression ["ON"] (Predicate.fragments (.compare c (.column a) (.column b))) := by
      cases c <;> exact expression_operator _ _ (by decide) (expression_column a) (expression_column b)
    refine ⟨segment_words (List.mem_singleton_self _) (List.Subset.refl _) hcompare, ?_⟩
    have ha : symbol ',' ∉ a.fragments := symbol_column (by decide) (by decide) a
    have hb : symbol ',' ∉ b.fragments := symbol_column (by decide) (by decide) b
    cases c <;> simp [conditionClause, Predicate.fragments, Operand.fragments, Comparison.sign, ha, hb]

/-- The words of a join in front of `JOIN`. -/
def kindTokens (k : JoinKind) : List Token :=
  Query.keywordTokens (kindTree k).words

theorem kindTokens_facts (k : JoinKind) : (kindTokens k).foldl depthStep 0 = 0 ∧
    (∀ t ∈ kindTokens k, isJoint t = false) ∧ ∀ t ∈ (kindTokens k).head?, isJoinWord t = true := by
  cases k <;> exact ⟨rfl, by decide, by decide⟩

/-- In front of `JOIN` stand the words of its kind. -/
theorem tokens_joint (k : JoinKind) (fs gs : List Fragment) (index : Nat) :
    ∃ i, tokens index (fs ++ (blank :: words k.words ++ blank :: gs)) =
      tokens index fs ++ kindTokens k ++ joinKeyword.token :: tokens i gs := by
  refine ⟨(blank :: words k.words).foldl next (fs.foldl next index), ?_⟩
  rw [tokens_append, tokens_append, tokens_kind, List.append_assoc, List.append_assoc]
  rfl

section Joins

variable {s : Source} {fs : List Fragment} (hfs : Segment ["ON"] ["ON"] fs)

include hfs

theorem grouped_source : Grouped (s.fragments ++ fs) :=
  (expression_labels s).grouped.append hfs.grouped

/-- Nothing in a source or its condition stands between two relations. -/
theorem not_isJoint (hcomma : symbol ',' ∉ fs) (index : Nat) :
    ∀ t ∈ tokens index (s.fragments ++ fs), isJoint t = false := by
  have hknown : ∀ f ∈ s.fragments ++ fs, f.isKnown ["AS", "ON"] = true :=
    List.forall_mem_append.2 ⟨((expression_labels s).mono (by decide)).known, (hfs.mono (by decide)).known⟩
  have hsource : symbol ',' ∉ s.fragments := by
    obtain ⟨schema, table, label⟩ := s
    cases label <;> simp [Source.fragments, labelled]
  have hnone : symbol ',' ∉ s.fragments ++ fs := by simp [hsource, hcomma]
  intro t ht
  rw [isJoint, isComma, isPunct_tokens hnone index t ht, isKeyword_tokens (by decide) hknown index t ht]
  rfl

/-- A condition begins with a word of a join. -/
theorem isJoinWord_head? {us : List Token} (h : ∀ u ∈ us.head?, isJoinWord u = true) (index : Nat) :
    ∀ u ∈ (tokens index fs ++ us).head?, isJoinWord u = true := by
  cases hfs with
  | nil => exact h
  | clause hw _ =>
    rw [List.mem_singleton.1 hw]
    rintro u ⟨⟩
    rfl

end Joins

/-- A range for every relation. The condition `fs` of the last join stands behind its source. -/
theorem fromList?_joins (s : Source) {fs : List Fragment} (hfs : Segment ["ON"] ["ON"] fs) (hcomma : symbol ',' ∉ fs)
    {js : List Join} (hjs : ∀ j ∈ js, IsColumnwise j.condition) (index : Nat) :
    fromList? (levels 0 (tokens index (s.fragments ++ fs ++ js.flatMap fun j => blank :: j.fragments))) =
      some (rangeOf s :: js.map fun j => rangeOf j.source) := by
  induction js generalizing s fs index with
  | nil =>
    have hnone := not_onTop (not_isJoint (s := s) hfs hcomma index) 0
    have hend : ∀ u ∈ ([] : List Token).head?, isJoinWord u = true := nofun
    have hhead := isJoinWord_head? hfs hend (s.fragments.foldl next index)
    rw [List.append_nil] at hhead
    rw [List.flatMap_nil, List.append_nil, fromList?, parts_of_none hnone, List.mapM_cons, map_fst_levels,
      tokens_append, range?_source s hhead]
    rfl
  | cons j js ih =>
    rw [List.forall_mem_cons] at hjs
    obtain ⟨hcondition, hnocomma⟩ := segment_columnwise hjs.1
    obtain ⟨hdepth, hkind, hword⟩ := kindTokens_facts j.kind
    have hfragments : (j :: js).flatMap (fun j => blank :: j.fragments) = blank :: words j.kind.words ++ blank ::
        (j.source.fragments ++ conditionClause "ON" j.condition ++ js.flatMap fun j => blank :: j.fragments) := by
      simp only [List.flatMap_cons, Join.fragments_eq, List.append_assoc, List.cons_append]
    obtain ⟨i, htokens⟩ := tokens_joint j.kind (s.fragments ++ fs) (j.source.fragments ++
      conditionClause "ON" j.condition ++ js.flatMap fun j => blank :: j.fragments) index
    -- the next join is the first one, as none stands in the source or its condition
    have hnone := List.forall_mem_append.2 ⟨not_isJoint (s := s) hfs hcomma index, hkind⟩
    have hhead := isJoinWord_head? hfs hword (s.fragments.foldl next index)
    rw [hfragments, htokens, levels_append, List.foldl_append, depth_tokens (grouped_source hfs), hdepth]
    change fromList? (_ ++ (joinKeyword.token, 0) :: levels 0 _) = _
    rw [fromList?, parts_append rfl, parts_of_none (not_onTop hnone 0), List.singleton_append, List.mapM_cons,
      map_fst_levels, tokens_append, List.append_assoc, range?_source s hhead, ← fromList?,
      ih j.source hcondition hnocomma hjs.2]
    rfl

/-! ## The statement -/

def itemList (s : Select) : List Fragment :=
  if s.items.isEmpty then [symbol '*'] else commaList (s.items.map (·.fragments))

/-- The entries of the items, or one for all columns where there are no items. -/
def entries? (s : Select) : Option (List Entry) :=
  if s.items.isEmpty then some [.star []] else s.items.mapM entryOfItem?

theorem expression_itemList (s : Select) : Expression ("AS" :: functionWords) (itemList s) := by
  have hitem : ∀ i : Item, Expression ("AS" :: functionWords) i.fragments := fun i =>
    expression_labelled (by decide) ((expression_expressionOf i).mono (by decide)) i.label
  have hall := forall_expression_map hitem s.items
  unfold itemList
  cases hitems : s.items with
  | nil => exact expression_dotted [] (.inl rfl)
  | cons i items =>
    rw [hitems] at hall
    exact expression_commaList hall

theorem selectList?_itemList (s : Select) (index : Nat) :
    selectList? (levels 0 (tokens index (itemList s))) = entries? s := by
  unfold itemList entries?
  cases s.items with
  | nil => rfl
  | cons i items => exact selectList?_items i items index

/-- The words around the relations and the conditions between them. -/
def rangeWords : List String :=
  ["JOIN", "INNER", "LEFT", "RIGHT", "FULL", "OUTER", "CROSS", "AS", "ON"]

/-- The relations of a statement. -/
def fromFragments (s : Select) : List Fragment :=
  s.source.fragments ++ s.joinFragments

theorem known_fromFragments {s : Select} (h : ∀ j ∈ s.joins, IsColumnwise j.condition) :
    ∀ f ∈ fromFragments s, f.isKnown rangeWords = true := by
  have hsource : ∀ source : Source, ∀ f ∈ source.fragments, f.isKnown rangeWords = true := fun source =>
    ((expression_labels source).mono (by decide)).known
  have hkind : ∀ k : JoinKind, ∀ f ∈ words k.words, f.isKnown rangeWords = true := by
    intro k
    cases k <;> decide
  refine List.forall_mem_append.2 ⟨hsource s.source, List.forall_mem_flatMap.2 fun j hj => ?_⟩
  have hcondition : ∀ f ∈ conditionClause "ON" j.condition, f.isKnown rangeWords = true :=
    ((segment_columnwise (h j hj)).1.mono (by decide)).known
  rw [Join.fragments_eq]
  simp only [List.forall_mem_cons, List.forall_mem_append]
  exact ⟨rfl, ⟨hkind j.kind, rfl, hsource j.source⟩, hcondition⟩

/-- The relations end where a clause begins. -/
theorem before_clauses {xs : List (Token × Nat)} (hxs : ∀ x ∈ xs, onTop isClause x = false) {fs : List Fragment}
    (hfs : Segment clauseStarts clauseWords fs) (index : Nat) :
    before isClause (xs ++ levels 0 (tokens index fs)) = xs := by
  cases hfs with
  | nil =>
    change before isClause (xs ++ []) = xs
    rw [List.append_nil, before_of_none hxs]
  | @clause w fs hw _ =>
    have hclause : ∀ w ∈ clauseStarts, isClause ⟨.word, w.toList⟩ = true := by decide
    exact before_append hxs (hclause w hw)

theorem body?_statement {s : Select} (h : ∀ j ∈ s.joins, IsColumnwise j.condition) (i k l : Nat) :
    body? (levels 0 (tokens i (itemList s) ++ fromKeyword.token ::
        (tokens k (fromFragments s) ++ tokens l (s.clauses ++ s.bounds)))) =
      (entries? s).map fun entries => ⟨entries, rangeOf s.source :: s.joins.map fun j => rangeOf j.source⟩ := by
  have hlist := expression_itemList s
  have hfrom : ∀ t ∈ tokens i (itemList s), isFrom t = false := isKeyword_tokens (by decide) hlist.known i
  have hclause : ∀ t ∈ tokens k (fromFragments s), isClause t = false :=
    isAnyKeyword_tokens (by decide) (known_fromFragments h)
  have hgrouped : Grouped (fromFragments s) := (expression_source s.source).grouped.append s.segment_joins.grouped
  have hranges := fromList?_joins s.source .nil List.not_mem_nil h k
  rw [List.append_nil] at hranges
  have hlevels : levels 0 (tokens i (itemList s) ++ fromKeyword.token ::
      (tokens k (fromFragments s) ++ tokens l (s.clauses ++ s.bounds))) =
        levels 0 (tokens i (itemList s)) ++ (fromKeyword.token, 0) ::
          (levels 0 (tokens k (fromFragments s)) ++ levels 0 (tokens l (s.clauses ++ s.bounds))) := by
    rw [levels_tokens hlist.grouped, ← levels_tokens hgrouped]
    rfl
  rw [hlevels, body?, before_append (not_onTop hfrom 0) rfl, behind_append (not_onTop hfrom 0) rfl,
    before_clauses (not_onTop hclause 0) s.segment_behind, selectList?_itemList, fromFragments, Select.joinFragments, hranges]
  cases entries? s <;> rfl

/-- The tokens of a statement are read as its items and its relations. -/
theorem reading?_statement {s : Select} (h : ∀ j ∈ s.joins, IsColumnwise j.condition) :
    reading? (tokens 1 s.fragments) =
      (entries? s).map fun entries => ⟨entries, rangeOf s.source :: s.joins.map fun j => rangeOf j.source⟩ := by
  have hfragments : s.fragments = [keyword "SELECT", blank] ++
      ((if s.distinct then [keyword "DISTINCT", blank] else []) ++ (itemList s ++
        ([blank, keyword "FROM", blank] ++ (fromFragments s ++ (s.clauses ++ s.bounds))))) := by
    simp only [Select.fragments_eq, Select.body, Select.opening, Select.list, fromFragments, itemList,
      List.append_assoc, List.cons_append, List.nil_append]
  have hdistinct : ∀ t ∈ tokens 1 (itemList s), t.isKeyword "distinct" = false :=
    isKeyword_tokens (by decide) (expression_itemList s).known 1
  obtain ⟨k, l, htokens⟩ : ∃ k l, tokens 1 (itemList s ++ ([blank, keyword "FROM", blank] ++ (fromFragments s ++
      (s.clauses ++ s.bounds)))) = tokens 1 (itemList s) ++ fromKeyword.token ::
        (tokens k (fromFragments s) ++ tokens l (s.clauses ++ s.bounds)) := by
    rw [tokens_append, tokens_append, tokens_append]
    exact ⟨_, _, rfl⟩
  have hbody := body?_statement h 1 k l
  rw [hfragments]
  cases s.distinct with
  | true =>
    change reading? (selectKeyword.token :: ⟨.word, "DISTINCT".toList⟩ :: tokens 1 (itemList s ++ _)) = _
    rw [htokens]
    exact hbody
  | false =>
    change reading? (selectKeyword.token :: tokens 1 (itemList s ++ _)) = _
    rw [htokens]
    -- the first token is one of the items, or `FROM`
    cases hitems : tokens 1 (itemList s) with
    | nil =>
      rw [hitems] at hbody
      exact hbody
    | cons t ts =>
      rw [hitems, List.forall_mem_cons] at hdistinct
      rw [hitems] at hbody
      rw [List.cons_append, reading?, hdistinct.1]
      exact hbody

end SpatialQuery.Naming
