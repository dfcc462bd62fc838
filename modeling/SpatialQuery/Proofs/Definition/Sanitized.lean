import SpatialQuery.Proofs.Meaning.Filter
import SpatialQuery.Proofs.Rendering.Limits
import SpatialQuery.Proofs.Rendering.Supplied

/-!
What a definition brings into the text of its statement. Its names stand there in quotes, its limit and
offset as numbers and its values as placeholders; everything else is fixed (`statement_sanitized`).
-/

namespace SpatialQuery.Definition

open Token Sql Meaning

/-! ## The names of a definition -/

/-- The names that a text refers to. -/
def refNames (s : String) : List Identifier :=
  match ColumnRef.read s with
  | .ok c => c.names
  | .error _ => []

def labelNames (label : Option String) : List Identifier :=
  (label.bind Identifier.ofString?).toList

def sourceNames (schema table : String) (label : Option String) : List Identifier :=
  [schema, table].filterMap Identifier.ofString? ++ labelNames label

def Column.names (c : Column) : List Identifier :=
  refNames c.source ++ labelNames c.label

/-- The names in the condition of a join, which a cross join has not. -/
def Join.sideNames (j : Join) : List Identifier :=
  match j.kind with
  | .cross => []
  | _ => (j.left.toList ++ j.right.toList).flatMap refNames

/-- The names that a definition has, as they are read. -/
def suppliedNames (d : Definition) : List Identifier :=
  sourceNames d.schema d.table d.label ++ (d.columns.flatMap Column.names ++
    (d.joins.flatMap (fun j => sourceNames j.schema j.table j.label ++ j.sideNames) ++
      (d.conditions.flatMap (fun c => refNames c.column) ++ (d.groupBy.flatMap refNames ++
        d.orderBy.flatMap fun o => refNames o.column))))

theorem refNames_of_readRef {s : String} {c : ColumnRef} (h : readRef s = .ok c) : refNames s = c.names := by
  rw [refNames, readRef_ok h]

theorem refNames_of_columnIn {scope : Scope} {s : String} {c : ColumnRef} (h : columnIn scope s = .ok c) :
    refNames s = c.names := by
  rw [refNames, (columnIn_ok h).1]

theorem labelNames_of_readLabel {label : Option String} {l : Option Identifier}
    (h : readLabel label = .ok l) : labelNames label = l.toList := by
  cases label with
  | none =>
    cases h
    rfl
  | some s =>
    obtain ⟨i, hi, rfl⟩ := map_ok_iff.1 h
    rw [labelNames, Option.bind_some, readName_ok_iff.1 hi]

theorem names_of_readSource {schema table : String} {label : Option String} {s : Source}
    (h : readSource schema table label = .ok s) : sourceNames schema table label = s.names := by
  obtain ⟨hschema, htable, hlabel⟩ := readSource_ok h
  rw [sourceNames, labelNames_of_readLabel hlabel, List.filterMap_cons, hschema, List.filterMap_cons, htable]
  rfl

/-! ## Conditions -/

/-- Values have no names, so only the column of a test has. -/
theorem namedFrom_written {c : ColumnRef} {o : Operator} {vs : List Value} {p : Predicate} (h : Written c o vs p) :
    p.NamedFrom c.names := by
  have hparams : ∀ vs : List Value, ∀ o ∈ vs.map Operand.param, o.names ⊆ c.names :=
    fun vs => List.forall_mem_map.2 fun _ _ => List.nil_subset _
  cases h with
  | member vs | notMember vs => exact List.forall_mem_cons.2 ⟨List.Subset.refl _, hparams vs⟩
  | _ => simp [Predicate.NamedFrom, Predicate.operands, Operand.names]

theorem namedFrom_condition {scope : Scope} {c : Condition} {p : Predicate}
    (h : conditionPredicate scope c = .ok p) : p.NamedFrom (refNames c.column) := by
  obtain ⟨column, hread, -, hwritten⟩ := conditionPredicate_written h
  rw [refNames, hread]
  exact namedFrom_written hwritten

theorem namedFrom_filter {names : List Identifier} {scope : Scope} {cs : List Condition}
    {condition : Option Predicate} (h : filter scope cs = .ok condition)
    (hcs : ∀ c ∈ cs, refNames c.column ⊆ names) : ∀ p ∈ condition, p.NamedFrom names := by
  have hpair : ∀ {p q : Predicate}, p.NamedFrom names → q.NamedFrom names →
      ∀ o ∈ p.operands ++ q.operands, o.names ⊆ names := fun hp hq => List.forall_mem_append.2 ⟨hp, hq⟩
  exact filter_of hpair hpair h fun c hc _ hp => (namedFrom_condition hp).mono (hcs c hc)

/-! ## The names of a statement -/

theorem names_of_selectItem {scope : Scope} {aggregated : Bool} {groups : List ColumnRef} {column : Column}
    {item : Item} {outputs : List OutputColumn}
    (h : selectItem scope aggregated groups column = .ok (item, outputs)) : column.names = item.names := by
  obtain ⟨hc, hlabel, -⟩ := selectItem_ok h
  rw [Column.names, refNames_of_readRef hc, labelNames_of_readLabel hlabel]
  rfl

theorem names_of_selectList {d : Definition} {scope : Scope} {groups : List ColumnRef} {items : List Item}
    {outputs : List OutputColumn} (h : selectList d scope groups = .ok (items, outputs)) :
    ∀ i ∈ items, ∃ c ∈ d.columns, c.names = i.names := by
  unfold selectList at h
  split at h
  · cases h
    nofun
  · obtain ⟨pairs, hpairs, h⟩ := bind_ok_iff.1 h
    obtain ⟨rfl, -⟩ := Prod.mk.inj (Except.ok.inj h)
    refine List.forall_mem_map.2 fun pair hpair => ?_
    obtain ⟨c, hc, hitem⟩ := exists_of_mapM_ok hpairs pair hpair
    exact ⟨c, hc, names_of_selectItem hitem⟩

theorem namedFrom_joinCondition {scope : Scope} {j : Join} {condition : Option Predicate}
    (h : joinCondition scope j = .ok condition) : ∀ p ∈ condition, p.NamedFrom j.sideNames := by
  rintro p rfl
  obtain ⟨left, right, a, b, hleft, hright, hkind, ha, hb, rfl⟩ := joinCondition_ok h
  have hsides : j.sideNames = a.names ++ b.names := by
    rw [Join.sideNames, hleft, hright, ← refNames_of_columnIn ha, ← refNames_of_columnIn hb]
    split
    · rename_i hcross
      exact absurd hcross hkind
    · rw [← List.append_nil (refNames right)]
      rfl
  rw [hsides]
  exact List.forall_mem_cons.2 ⟨List.subset_append_left _ _,
    List.forall_mem_singleton.2 (List.subset_append_right _ _)⟩

/-- The joins have the names that they were read with. -/
theorem namedFrom_readJoins {names : List Identifier} {scope : Scope} {js : List Join} {sources : List Source}
    {joins : List Sql.Join} (hsources : js.mapM joinSource = .ok sources)
    (h : readJoins scope (js.zip sources) = .ok joins)
    (hjs : ∀ j ∈ js, sourceNames j.schema j.table j.label ⊆ names ∧ j.sideNames ⊆ names) :
    ∀ j ∈ joins, j.source.names ⊆ names ∧ ∀ p ∈ j.condition, p.NamedFrom names := by
  have hall := mapM_ok_iff.1 hsources
  clear hsources
  induction hall generalizing scope joins with
  | nil =>
    cases h
    exact List.forall_mem_nil _
  | cons hj _ ih =>
    rename_i j s js sources _
    rw [List.forall_mem_cons] at hjs
    obtain ⟨condition, rest, hcondition, hrest, rfl⟩ := readJoins_cons_iff.1 h
    have hsource : s.names ⊆ names := by
      rw [← names_of_readSource hj]
      exact hjs.1.1
    refine List.forall_mem_cons.2 ⟨⟨hsource, fun p hp => ?_⟩, ih hrest hjs.2⟩
    exact (namedFrom_joinCondition hcondition p hp).mono hjs.1.2

theorem flatMap_subset_iff {α β : Type} {f : α → List β} {xs : List α} {ys : List β} :
    xs.flatMap f ⊆ ys ↔ ∀ x ∈ xs, f x ⊆ ys := by
  simp only [List.subset_def, List.mem_flatMap]
  constructor
  · exact fun h x hx y hy => h ⟨x, hx, hy⟩
  · rintro h y ⟨x, hx, hy⟩
    exact h x hx hy

/-- The names of a statement are among those of its definition. -/
theorem Parts.namedFrom {d : Definition} {s : Select} {outputs : List OutputColumn} {sources : List Source}
    (h : Parts d s outputs sources) {names : List Identifier} (hsub : d.suppliedNames ⊆ names) :
    s.NamedFrom names := by
  simp only [suppliedNames, List.append_subset, flatMap_subset_iff] at hsub
  obtain ⟨hsource, hcolumns, hjoins, hconditions, hgroupBy, horderBy⟩ := hsub
  refine ⟨fun i hi => ?_, ?_, ?_, namedFrom_filter h.condition hconditions, fun c hc => ?_, fun o ho => ?_⟩
  · obtain ⟨c, hc, hnames⟩ := names_of_selectList h.list i hi
    rw [← hnames]
    exact hcolumns c hc
  · rw [← names_of_readSource h.source]
    exact hsource
  · exact namedFrom_readJoins h.joined h.joins hjoins
  · obtain ⟨text, htext, hcolumn⟩ := exists_of_mapM_ok h.groupBy c hc
    rw [← refNames_of_columnIn hcolumn]
    exact hgroupBy text htext
  · obtain ⟨order, horder, hread⟩ := exists_of_mapM_ok h.orderBy o ho
    obtain ⟨c, hc, hread⟩ := bind_ok_iff.1 hread
    obtain rfl := Except.ok.inj hread
    rw [← refNames_of_columnIn hc]
    exact horderBy order horder

/-! ## The text of a statement -/

/-- The texts of some of the tokens, in their order. -/
def textsOf (p : Token → Bool) (ts : List Token) : List (List Char) :=
  (ts.filter p).map Token.text

def isPlaceholder (t : Token) : Bool :=
  t.placeholder?.isSome

theorem textsOf_append (p : Token → Bool) (ts us : List Token) :
    textsOf p (ts ++ us) = textsOf p ts ++ textsOf p us := by
  rw [textsOf, List.filter_append, List.map_append]
  rfl

theorem numbers_supplied {names : List Identifier} {fs : List Fragment} (h : AllSupplied names fs)
    (index : Nat) : textsOf isNumber (Fragment.tokens index fs) = [] := by
  induction fs generalizing index with
  | nil => rfl
  | cons f fs ih =>
    obtain ⟨hf, hfs⟩ := List.forall_mem_cons.1 h
    rw [Fragment.tokens, textsOf_append, ih hfs]
    cases f with
    | number n => exact hf.elim
    | _ => rfl

theorem numbers_statement {names : List Identifier} {s : Select} (h : s.NamedFrom names) :
    textsOf isNumber (Fragment.tokens 1 s.fragments) = (s.limit.toList ++ s.offset.toList).map Text.ofNat := by
  rw [Select.fragments_eq, Fragment.tokens_append, textsOf_append, numbers_supplied (Select.supplied_body h),
    Select.bounds]
  cases s.limit <;> cases s.offset <;> rfl

/-- Placeholders are numbered one after the other. -/
theorem placeholders_texts (fs : List Fragment) (index : Nat) :
    textsOf isPlaceholder (Fragment.tokens index fs) =
      (List.range' index (Fragment.values fs).length).map fun n => '$' :: Text.ofNat n := by
  induction fs generalizing index with
  | nil => rfl
  | cons f fs ih =>
    rw [Fragment.tokens, textsOf_append, ih]
    cases f with
    | param v =>
      change _ = (List.range' index ((Fragment.values fs).length + 1)).map _
      rw [List.range'_succ]
      rfl
    | _ => rfl

/-- What a token may be: one of the fixed words or symbols, which have no semicolon, one of the names in
quotes, the pattern that matches any text, a number or a placeholder. -/
def Allowed (names : List Identifier) (t : Token) : Prop :=
  match t.kind with
  | .word => t.text ∈ statementWords.map String.toList
  | .quotedIdentifier => ∃ i ∈ names, t.text = '"' :: i.name.toList ++ ['"']
  | .stringLiteral => t.text = ['\'', '%', '\'']
  | .punct c => c ∈ Fragment.symbols
  | .number | .placeholder _ => True
  | .lineComment | .blockComment | .unclosed _ => False

/-- The tokens are allowed ones, with these numbers and so many placeholders, in their order. -/
structure Sanitized (names : List Identifier) (numbers : List Nat) (count : Nat) (ts : List Token) : Prop where
  allowed : ∀ t ∈ ts, Allowed names t
  numbers : textsOf isNumber ts = numbers.map Text.ofNat
  placeholders : textsOf isPlaceholder ts = (List.range' 1 count).map fun n => '$' :: Text.ofNat n

theorem allowed_token {names : List Identifier} {f : Fragment} (hknown : f.isKnown statementWords = true)
    (hname : ∀ i, f = .name i → i ∈ names) {index : Nat} {t : Token} (ht : f.token? index = some t) :
    Allowed names t := by
  cases f with
  | blank => cases ht
  | keyword word =>
    cases ht
    exact List.mem_map_of_mem (List.contains_iff_mem.1 hknown)
  | name i =>
    cases ht
    exact ⟨i, hname i rfl, rfl⟩
  | symbol c =>
    cases ht
    exact List.contains_iff_mem.1 hknown
  | number n | param v =>
    cases ht
    trivial
  | anyText =>
    cases ht
    rfl

theorem name_of_fragments {names : List Identifier} {s : Select} (h : s.NamedFrom names) {i : Identifier}
    (hi : Fragment.name i ∈ s.fragments) : i ∈ names := by
  have hbounds : Fragment.name i ∉ s.bounds := by
    rw [Select.bounds]
    generalize s.limit = limit
    generalize s.offset = offset
    cases limit <;> cases offset <;> simp [Select.numberClause]
  rw [Select.fragments_eq, List.mem_append] at hi
  exact Select.supplied_body h _ (hi.resolve_right hbounds)

theorem sanitized_tokens {names : List Identifier} {s : Select} (h : s.NamedFrom names) :
    Sanitized names (s.limit.toList ++ s.offset.toList) (Fragment.values s.fragments).length
      (Fragment.tokens 1 s.fragments) := by
  refine ⟨fun t ht => ?_, numbers_statement h, placeholders_texts s.fragments 1⟩
  obtain ⟨f, hf, index, hi⟩ := Fragment.mem_tokens ht
  refine allowed_token (s.legible.known f hf) ?_ hi
  rintro i rfl
  exact name_of_fragments h hf

/-- The text of a statement is fixed, up to the names of its definition, which stand in quotes, its limit and
offset, and the placeholders, of which each stands for one parameter. -/
theorem statement_sanitized {d : Definition} {st : Statement} (h : d.statement = .ok st) :
    Sanitized d.suppliedNames (d.limit.toList ++ d.offset.toList) st.parameters.length
      (Scan.ofString st.sql).tokens := by
  obtain ⟨s, outputs, sources, hparts, rfl⟩ := parts_of_statement h
  have htokens : (Scan.ofString (statementOf s outputs).sql).tokens = Fragment.tokens 1 s.fragments :=
    tokens_ofString s
  rw [htokens, ← hparts.limit, ← hparts.offset]
  exact sanitized_tokens (hparts.namedFrom (List.Subset.refl _))

/-- Some roads, with texts in their conditions that would end a literal. -/
def roadsNamed : Definition where
  schema := "gis"
  table := "roads"
  label := some "r"
  columns := [{ source := "r.name" }]
  conditions := [⟨"r.kind", .member, .list [.text "'; DROP TABLE roads; --", .int 7], .and⟩,
    ⟨"name", .textMatch .contains, .text "' OR 1 = 1", .or⟩]
  limit := some 50

def roadsNamedStatement : Statement where
  sql := "SELECT \"r\".\"name\" FROM \"gis\".\"roads\" AS \"r\" WHERE (\"r\".\"kind\" IN ($1, $2) OR " ++
    "\"name\" LIKE '%' || $3 || '%') LIMIT 50"
  parameters := [.text "'; DROP TABLE roads; --", .int 7, .text "' OR 1 = 1"]
  outputs := [.single "name" ⟨"gis", "roads"⟩ (some "name") none]

theorem statement_roadsNamed : roadsNamed.statement = .ok roadsNamedStatement := by
  with_unfolding_all rfl

theorem statement_sanitized_roads : roadsNamed.statement = .ok roadsNamedStatement ∧
    Sanitized roadsNamed.suppliedNames [50] 3 (Scan.ofString roadsNamedStatement.sql).tokens :=
  ⟨statement_roadsNamed, statement_sanitized statement_roadsNamed⟩

end SpatialQuery.Definition
