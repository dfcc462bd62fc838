import SpatialQuery.Proofs.Meaning.Written

/-!
Statements of definitions that differ at most in what the values of their conditions contain. The contents
matter in one place only: conditions directly behind the first one that make its test again are merged with
it. The statements have the same text and parameters of the same kinds exactly if equally many conditions are
merged (`statement_of_sameShape`).
-/

namespace SpatialQuery.Definition

open Sql Sql.Fragment Meaning

/-! ## Shapes -/

/-- The two are of one kind, lists item by item, and both or none of two geometries have a distance. -/
inductive Comparand.SameShape : Comparand → Comparand → Prop
  | null : SameShape .null .null
  | bool (b b' : Bool) : SameShape (.bool b) (.bool b')
  | int (i i' : Int) : SameShape (.int i) (.int i')
  | float (x x' : Float) : SameShape (.float x) (.float x')
  | text (s s' : String) : SameShape (.text s) (.text s')
  | list {items items' : List Comparand} (h : List.Forall₂ SameShape items items') :
      SameShape (.list items) (.list items')
  | geometry {g g' : GeometryText} (h : g.distance.isSome = g'.distance.isSome) :
      SameShape (.geometry g) (.geometry g')

structure Condition.SameShape (c d : Condition) : Prop where
  column : c.column = d.column
  operator : c.operator = d.operator
  value : c.value.SameShape d.value
  connective : c.connective = d.connective

/-- The definitions are equal but for what the values of their conditions contain. -/
def SameShape (d d' : Definition) : Prop :=
  ∃ cs, d' = { d with conditions := cs } ∧ List.Forall₂ Condition.SameShape d.conditions cs

/-- How many conditions directly behind the first one make its test again: of the same column, with the same
operator and equal values. -/
def repeats : List Condition → Nat
  | [] => 0
  | c :: cs => (cs.takeWhile fun d => conditionTest? c == conditionTest? d).length

/-! ## Tests of one shape -/

theorem Comparand.SameShape.scalar {v w : Comparand} (h : v.SameShape w) :
    v.scalar?.map Value.kind = w.scalar?.map Value.kind := by
  cases h <;> rfl

theorem kinds_of_items {items items' : List Comparand}
    (h : List.Forall₂ Comparand.SameShape items items') :
    (items.filterMap Comparand.scalar?).map Value.kind =
      (items'.filterMap Comparand.scalar?).map Value.kind := by
  rw [List.map_filterMap, List.map_filterMap]
  induction h with
  | nil => rfl
  | cons hhead _ ih => rw [List.filterMap_cons, List.filterMap_cons, hhead.scalar, ih]

theorem Comparand.SameShape.bound {v w : Comparand} (h : v.SameShape w) (o : Operator) :
    (bound o v).1 = (bound o w).1 ∧ (bound o v).2.map Value.kind = (bound o w).2.map Value.kind := by
  cases h with
  | null => exact ⟨rfl, rfl⟩
  | bool | int | float | text =>
    cases o with
    | compare c => cases c <;> exact ⟨rfl, rfl⟩
    | _ => exact ⟨rfl, rfl⟩
  | list hitems =>
    have hkinds := kinds_of_items hitems
    cases o with
    | compare c => cases c <;> exact ⟨rfl, hkinds⟩
    | isNull | isNotNull => exact ⟨rfl, rfl⟩
    | _ => exact ⟨rfl, hkinds⟩
  | @geometry g g' hdistance =>
    cases o with
    | compare c => cases c <;> exact ⟨rfl, rfl⟩
    | withinDistance =>
      refine ⟨rfl, ?_⟩
      simp only [Meaning.bound, List.map_append]
      cases hg : g.distance <;> cases hg' : g'.distance <;> simp_all [geometryValues, Value.kind]
    | _ => exact ⟨rfl, rfl⟩

/-- How many values a condition binds. -/
def valueCount (c : Condition) : Nat :=
  (bound c.operator c.value).2.length

theorem Condition.SameShape.valueCount {c d : Condition} (h : c.SameShape d) :
    Definition.valueCount c = Definition.valueCount d := by
  have hlength := congrArg List.length (h.value.bound c.operator).2
  rw [List.length_map, List.length_map] at hlength
  rw [Definition.valueCount, hlength, h.operator, Definition.valueCount]

theorem conditionTest?_of_read {c : Condition} {column : ColumnRef}
    (h : ColumnRef.read c.column = .ok column) :
    conditionTest? c = some ⟨columnNames column, (bound c.operator c.value).1, (bound c.operator c.value).2⟩ := by
  rw [conditionTest?, h]

theorem beq_tests {c d : Condition} {a b : ColumnRef} (hc : ColumnRef.read c.column = .ok a)
    (hd : ColumnRef.read d.column = .ok b) :
    (conditionTest? c == conditionTest? d) =
      (columnNames a == columnNames b && ((bound c.operator c.value).1 == (bound d.operator d.value).1 &&
        (bound c.operator c.value).2 == (bound d.operator d.value).2)) := by
  rw [conditionTest?_of_read hc, conditionTest?_of_read hd]
  rfl

theorem valueCounts_eq {cs cs' : List Condition} (h : List.Forall₂ Condition.SameShape cs cs') :
    cs.map valueCount = cs'.map valueCount := by
  induction h with
  | nil => rfl
  | cons hc _ ih => rw [List.map_cons, List.map_cons, hc.valueCount, ih]

/-- Conditions with equal tests bind equally many values. -/
theorem valueCount_of_beq {scope : Scope} {c d : Condition} {p q : Predicate}
    (hp : conditionPredicate scope c = .ok p) (hq : conditionPredicate scope d = .ok q)
    (h : (conditionTest? c == conditionTest? d) = true) : valueCount c = valueCount d := by
  obtain ⟨a, ha, -, -⟩ := conditionPredicate_written hp
  obtain ⟨b, hb, -, -⟩ := conditionPredicate_written hq
  rw [beq_tests ha hb, Bool.and_eq_true, Bool.and_eq_true] at h
  exact List.length_eq_of_beq h.2.2

/-- Where the first condition binds no values, its test does not depend on contents, nor does it matter to what
other tests it is equal. -/
theorem beq_of_no_values {c c' d d' : Condition} (hc : c.SameShape c') (hd : d.SameShape d')
    (hnone : valueCount c = 0) :
    (conditionTest? c == conditionTest? d) = (conditionTest? c' == conditionTest? d') := by
  have hnone' : valueCount c' = 0 := hc.valueCount.symm.trans hnone
  have hlength : (bound d.operator d.value).2.length = (bound d'.operator d'.value).2.length := hd.valueCount
  rw [valueCount, List.length_eq_zero_iff] at hnone hnone'
  obtain ⟨hop, -⟩ := hc.value.bound c.operator
  obtain ⟨hop', -⟩ := hd.value.bound d.operator
  rw [hc.operator] at hop hnone
  rw [hd.operator] at hop' hlength
  cases hread : ColumnRef.read c.column with
  | error e =>
    rw [conditionTest?, conditionTest?, conditionTest?, conditionTest?, ← hc.column, ← hd.column, hread]
    cases ColumnRef.read d.column <;> rfl
  | ok a =>
    cases hread' : ColumnRef.read d.column with
    | error e =>
      rw [conditionTest?, conditionTest?, conditionTest?, conditionTest?, ← hc.column, ← hd.column, hread, hread']
      rfl
    | ok b =>
      rw [beq_tests hread hread', beq_tests (hc.column ▸ hread) (hd.column ▸ hread'), hc.operator, hd.operator,
        hop, hop', hnone, hnone']
      -- no values are equal to others only if these are none, too
      cases hvs : (bound d'.operator d.value).2 <;> cases hws : (bound d'.operator d'.value).2 <;>
        simp_all

theorem repeats_singleton (c : Condition) : repeats [c] = 0 :=
  rfl

theorem repeats_of_beq {c d : Condition} (h : (conditionTest? c == conditionTest? d) = true)
    (cs : List Condition) : repeats (c :: d :: cs) = repeats (c :: cs) + 1 := by
  simp only [repeats, List.takeWhile_cons, h, if_true, List.length_cons]

theorem repeats_of_ne {c d : Condition} (h : (conditionTest? c == conditionTest? d) = false)
    (cs : List Condition) : repeats (c :: d :: cs) = 0 := by
  simp only [repeats, List.takeWhile_cons, h, Bool.false_eq_true, if_false, List.length_nil]

theorem repeats_of_no_values {c c' : Condition} {cs cs' : List Condition} (hc : c.SameShape c')
    (hcs : List.Forall₂ Condition.SameShape cs cs') (hnone : valueCount c = 0) :
    repeats (c :: cs) = repeats (c' :: cs') := by
  induction hcs with
  | nil => rw [repeats_singleton, repeats_singleton]
  | @cons d d' cs cs' hd _ ih =>
    have hsame := beq_of_no_values hc hd hnone
    cases hbeq : conditionTest? c == conditionTest? d with
    | true => rw [repeats_of_beq hbeq, repeats_of_beq (hsame.symm.trans hbeq), ih]
    | false => rw [repeats_of_ne hbeq, repeats_of_ne (hsame.symm.trans hbeq)]

/-! ## Joined predicates -/

def junction (p : Predicate) : Connective → Predicate → Predicate
  | .and, q => p.and q
  | .or, q => p.or q

theorem outlines_junction {p p' q q' : Predicate} (hp : p.fragments.map outline = p'.fragments.map outline)
    (hq : q.fragments.map outline = q'.fragments.map outline) (k : Connective) :
    (junction p k q).fragments.map outline = (junction p' k q').fragments.map outline := by
  cases k <;>
    simp only [junction, Predicate.fragments, List.map_append, List.map_cons, outlines_joined hp hq]

theorem values_junction (p q : Predicate) (k : Connective) :
    values (junction p k q).fragments = values p.fragments ++ values q.fragments := by
  cases k <;> exact values_group p q _

/-- The predicate is joined with that of the first condition, and not merged. -/
def Joins (scope : Scope) (p : Predicate) (cs : List Condition) : Prop :=
  ∀ c ∈ cs.head?, ∀ q, conditionPredicate scope c = .ok q → (p == q) = false

theorem connect_eq (p : Predicate) (k : Connective) (q : Predicate) :
    connect p k q = if p == q then p else junction p k q := by
  cases k <;> rfl

theorem connect_of_ne {p q : Predicate} (h : (p == q) = false) (k : Connective) :
    connect p k q = junction p k q := by
  rw [connect_eq, h]
  rfl

theorem connect_of_beq {p q : Predicate} (h : (p == q) = true) (k : Connective) : connect p k q = p := by
  rw [connect_eq, h]
  rfl

/-- What is joined is the predicate of no condition. -/
theorem joins_junction (scope : Scope) (p q : Predicate) (k : Connective) (cs : List Condition) :
    Joins scope (junction p k q) cs := by
  intro c _ r hr
  obtain ⟨_, -, htest⟩ := conditionPredicate_test hr
  cases k with
  | and =>
    cases r with
    | and => cases htest
    | _ => rfl
  | or =>
    cases r with
    | or => cases htest
    | _ => rfl

theorem filterFrom_joins {scope : Scope} {p r : Predicate} {c : Condition} {cs : List Condition}
    (hjoins : Joins scope p (c :: cs)) (h : filterFrom scope p (c :: cs) = .ok r) :
    ∃ q, conditionPredicate scope c = .ok q ∧ filterFrom scope (junction p c.connective q) cs = .ok r := by
  rw [filterFrom_cons] at h
  obtain ⟨q, hq, hrest⟩ := bind_ok_iff.1 h
  rw [connect_of_ne (hjoins c rfl q hq)] at hrest
  exact ⟨q, hq, hrest⟩

theorem values_conditionPredicate {scope : Scope} {c : Condition} {p : Predicate}
    (h : conditionPredicate scope c = .ok p) : (values p.fragments).length = valueCount c := by
  rw [values_conditionPredicate_eq h, valueCount]

/-- What is joined has the values of all conditions. -/
theorem length_values_filterFrom {scope : Scope} {p r : Predicate} {cs : List Condition}
    (hjoins : Joins scope p cs) (h : filterFrom scope p cs = .ok r) :
    (values r.fragments).length = (values p.fragments).length + (cs.map valueCount).sum := by
  induction cs generalizing p with
  | nil =>
    cases h
    rfl
  | cons c cs ih =>
    obtain ⟨q, hq, hrest⟩ := filterFrom_joins hjoins h
    rw [ih (joins_junction scope p q _ cs) hrest, values_junction, List.length_append,
      values_conditionPredicate hq, List.map_cons, List.sum_cons, Nat.add_assoc]

theorem outlines_conditionPredicate {scope : Scope} {c c' : Condition} {p p' : Predicate}
    (hc : c.SameShape c') (h : conditionPredicate scope c = .ok p) (h' : conditionPredicate scope c' = .ok p') :
    p.fragments.map outline = p'.fragments.map outline := by
  obtain ⟨a, ha, -, hwritten⟩ := conditionPredicate_written h
  obtain ⟨b, hb, -, hwritten'⟩ := conditionPredicate_written h'
  rw [hc.column, hb] at ha
  obtain rfl := Except.ok.inj ha
  obtain ⟨hop, hkinds⟩ := hc.value.bound c.operator
  rw [hop, hc.operator] at hwritten
  rw [hc.operator] at hkinds
  exact hwritten.outlines hwritten' hkinds

theorem outlines_filterFrom {scope : Scope} {p p' r r' : Predicate} {cs cs' : List Condition}
    (hcs : List.Forall₂ Condition.SameShape cs cs') (hjoins : Joins scope p cs) (hjoins' : Joins scope p' cs')
    (hp : p.fragments.map outline = p'.fragments.map outline) (h : filterFrom scope p cs = .ok r)
    (h' : filterFrom scope p' cs' = .ok r') : r.fragments.map outline = r'.fragments.map outline := by
  induction hcs generalizing p p' with
  | nil =>
    cases h
    cases h'
    exact hp
  | @cons c c' cs cs' hc _ ih =>
    obtain ⟨q, hq, hrest⟩ := filterFrom_joins hjoins h
    obtain ⟨q', hq', hrest'⟩ := filterFrom_joins hjoins' h'
    have hjunction := outlines_junction hp (outlines_conditionPredicate hc hq hq') c.connective
    rw [hc.connective] at hrest hjunction
    exact ih (joins_junction scope p q _ cs) (joins_junction scope p' q' _ cs') hjunction hrest hrest'

/-! ## Merged predicates -/

/-- The conditions that repeat the first one leave its predicate as it is; the next one is joined to it. -/
theorem filterFrom_drop {scope : Scope} {c : Condition} {p r : Predicate} {cs : List Condition}
    (hc : conditionPredicate scope c = .ok p) (h : filterFrom scope p cs = .ok r) :
    filterFrom scope p (cs.drop (repeats (c :: cs))) = .ok r ∧
      Joins scope p (cs.drop (repeats (c :: cs))) ∧
      (cs.map valueCount).sum =
        repeats (c :: cs) * valueCount c + ((cs.drop (repeats (c :: cs))).map valueCount).sum := by
  induction cs with
  | nil => exact ⟨h, nofun, (Nat.zero_mul _).symm⟩
  | cons d cs ih =>
    have hall := h
    rw [filterFrom_cons] at h
    obtain ⟨q, hq, hrest⟩ := bind_ok_iff.1 h
    have hbeq := beq_conditionPredicate hc hq
    cases htest : conditionTest? c == conditionTest? d with
    | true =>
      -- Joined to a predicate equal to it, the filter stays as it is: the condition is a repetition.
      rw [connect_of_beq (hbeq.trans htest)] at hrest
      obtain ⟨hfilter, hjoins, hsum⟩ := ih hrest
      rw [repeats_of_beq htest, List.drop_succ_cons]
      refine ⟨hfilter, hjoins, ?_⟩
      rw [List.map_cons, List.sum_cons, hsum, ← valueCount_of_beq hc hq htest, Nat.succ_mul]
      omega
    | false =>
      rw [repeats_of_ne htest, List.drop_zero, Nat.zero_mul, Nat.zero_add]
      refine ⟨hall, ?_, rfl⟩
      rintro _ ⟨⟩ q' hq'
      rw [hq] at hq'
      obtain rfl := Except.ok.inj hq'
      exact hbeq.trans htest

/-- Every condition binds its values, and those that repeat the first one bind them again. -/
theorem length_values_filter {scope : Scope} {c : Condition} {cs : List Condition} {r : Option Predicate}
    (h : filter scope (c :: cs) = .ok r) :
    (values (conditionClause "WHERE" r)).length + repeats (c :: cs) * valueCount c =
      valueCount c + (cs.map valueCount).sum := by
  rw [filter_cons] at h
  obtain ⟨p, hp, hrest⟩ := bind_ok_iff.1 h
  obtain ⟨q, hq, rfl⟩ := map_ok_iff.1 hrest
  obtain ⟨hfilter, hjoins, hsum⟩ := filterFrom_drop hp hq
  have hlength := length_values_filterFrom hjoins hfilter
  rw [values_conditionPredicate hp] at hlength
  change (values q.fragments).length + _ = _
  omega

section TwoFilters

variable {scope : Scope} {cs cs' : List Condition} {r r' : Option Predicate}
  (hcs : List.Forall₂ Condition.SameShape cs cs') (h : filter scope cs = .ok r) (h' : filter scope cs' = .ok r')

include hcs h h'

/-- Filters of one shape are written alike if equally many conditions are merged. -/
theorem outlines_filter (hrepeats : repeats cs = repeats cs') :
    (conditionClause "WHERE" r).map outline = (conditionClause "WHERE" r').map outline := by
  cases hcs with
  | nil =>
    cases h
    cases h'
    rfl
  | @cons c c' cs cs' hc hrest =>
    rw [filter_cons] at h h'
    obtain ⟨p, hp, h⟩ := bind_ok_iff.1 h
    obtain ⟨q, hq, rfl⟩ := map_ok_iff.1 h
    obtain ⟨p', hp', h'⟩ := bind_ok_iff.1 h'
    obtain ⟨q', hq', rfl⟩ := map_ok_iff.1 h'
    obtain ⟨hfilter, hjoins, -⟩ := filterFrom_drop hp hq
    obtain ⟨hfilter', hjoins', -⟩ := filterFrom_drop hp' hq'
    rw [← hrepeats] at hfilter' hjoins'
    have hfirst := outlines_conditionPredicate hc hp hp'
    have hall := outlines_filterFrom (List.forall₂_drop _ hrest) hjoins hjoins' hfirst hfilter hfilter'
    simp only [conditionClause, List.map_cons, hall]

/-- Equally many conditions are merged if the filters have equally many values. -/
theorem repeats_of_length
    (hlength : (values (conditionClause "WHERE" r)).length = (values (conditionClause "WHERE" r')).length) :
    repeats cs = repeats cs' := by
  cases hcs with
  | nil => rfl
  | @cons c c' cs cs' hc hrest =>
    rcases Nat.eq_zero_or_pos (valueCount c) with hnone | hpos
    · exact repeats_of_no_values hc hrest hnone
    · have hvalues := length_values_filter h
      have hvalues' := length_values_filter h'
      rw [← hc.valueCount, ← valueCounts_eq hrest, ← hvalues, ← hlength] at hvalues'
      exact Nat.eq_of_mul_eq_mul_right hpos (Nat.add_left_cancel hvalues').symm

end TwoFilters

/-! ## Statements -/

/-- The clauses behind the conditions. -/
def behindConditions (s : Select) : List Fragment :=
  Select.listClause ["GROUP", "BY"] (s.groupBy.map (·.fragments)) ++
    Select.listClause ["ORDER", "BY"] (s.orderBy.map (·.fragments)) ++ s.bounds

theorem fragments_condition (s : Select) (p : Option Predicate) :
    ({ s with condition := p }).fragments =
      s.opening ++ s.joinFragments ++ conditionClause "WHERE" p ++ behindConditions s := by
  rw [Select.fragments_eq, Select.body, Select.clauses, behindConditions]
  simp only [List.append_assoc]
  rfl

theorem outlines_fragments (s : Select) {p p' : Option Predicate}
    (h : (conditionClause "WHERE" p).map outline = (conditionClause "WHERE" p').map outline) :
    ({ s with condition := p }).fragments.map outline = ({ s with condition := p' }).fragments.map outline := by
  simp only [fragments_condition, List.map_append, h]

theorem length_values_fragments (s : Select) {p p' : Option Predicate}
    (h : (values ({ s with condition := p }).fragments).length =
      (values ({ s with condition := p' }).fragments).length) :
    (values (conditionClause "WHERE" p)).length = (values (conditionClause "WHERE" p')).length := by
  simpa [fragments_condition, values_append] using h

/-- The statements of definitions of one shape are equal but for their conditions, which are read in one scope. -/
theorem statement_parts {d d' : Definition} (hshape : d.SameShape d') {st st' : Statement}
    (h : d.statement = .ok st) (h' : d'.statement = .ok st') :
    ∃ (s : Select) (outputs : List OutputColumn) (scope : Scope) (r r' : Option Predicate),
      filter scope d.conditions = .ok r ∧ filter scope d'.conditions = .ok r' ∧
        st = statementOf { s with condition := r } outputs ∧
        st' = statementOf { s with condition := r' } outputs := by
  obtain ⟨cs, rfl, -⟩ := hshape
  obtain ⟨s, outputs, sources, hparts, rfl⟩ := parts_of_statement h
  obtain ⟨s', outputs', sources', hparts', rfl⟩ := parts_of_statement h'
  -- all parts but the filter are compiled from the same data
  have hsource : s'.source = s.source := Except.ok.inj (hparts'.source.symm.trans hparts.source)
  have hsources : sources' = sources := Except.ok.inj (hparts'.joined.symm.trans hparts.joined)
  have hjoins := hparts'.joins
  have hgroup := hparts'.groupBy
  have hlist := hparts'.list
  have horder := hparts'.orderBy
  have hcondition := hparts'.condition
  rw [hsource, hsources] at hjoins hgroup hlist horder hcondition
  have hgroupBy : s'.groupBy = s.groupBy := Except.ok.inj (hgroup.symm.trans hparts.groupBy)
  rw [hgroupBy] at hlist
  obtain ⟨hitems, houtputs⟩ := Prod.mk.inj (Except.ok.inj (hlist.symm.trans hparts.list))
  have hjoined : s'.joins = s.joins := Except.ok.inj (hjoins.symm.trans hparts.joins)
  have horderBy : s'.orderBy = s.orderBy := Except.ok.inj (horder.symm.trans hparts.orderBy)
  have hselect : s' = { s with condition := s'.condition } := by
    have hdistinct := hparts'.distinct.trans hparts.distinct.symm
    have hlimit := hparts'.limit.trans hparts.limit.symm
    have hoffset := hparts'.offset.trans hparts.offset.symm
    cases s'
    rw [Select.mk.injEq]
    exact ⟨hdistinct, hitems, hsource, hjoined, rfl, hgroupBy, horderBy, hlimit, hoffset⟩
  exact ⟨s, outputs, s.source :: sources, s.condition, s'.condition, hparts.condition, hcondition, rfl,
    by rw [houtputs, ← hselect]⟩

/-- The statements of two definitions of one shape have the same text, and parameters of the same kinds, exactly if
equally many conditions repeat the first one. -/
theorem statement_of_sameShape {d d' : Definition} (hshape : d.SameShape d') {st st' : Statement}
    (h : d.statement = .ok st) (h' : d'.statement = .ok st') :
    (st.sql = st'.sql ↔ repeats d.conditions = repeats d'.conditions) ∧
      (st.parameters.map Value.kind = st'.parameters.map Value.kind ↔
        repeats d.conditions = repeats d'.conditions) := by
  obtain ⟨s, outputs, scope, r, r', hr, hr', rfl, rfl⟩ := statement_parts hshape h h'
  obtain ⟨cs, rfl, hcs⟩ := hshape
  have hsame (hrepeats : repeats d.conditions = repeats cs) :=
    outlines_fragments s (outlines_filter hcs hr hr' hrepeats)
  have hmerged (hlength) : repeats d.conditions = repeats cs :=
    repeats_of_length hcs hr hr' (length_values_fragments s hlength)
  refine ⟨⟨fun hsql => ?_, fun hrepeats => ?_⟩, ⟨fun hkinds => ?_, fun hrepeats => ?_⟩⟩
  · exact hmerged (Select.length_values_of_texts (String.ofList_injective hsql))
  · exact congrArg String.ofList (texts_of_outlines (hsame hrepeats) 1)
  · have hlength := congrArg List.length hkinds
    rw [List.length_map, List.length_map] at hlength
    exact hmerged hlength
  · exact kinds_of_outlines (hsame hrepeats)

/-- Two conditions on one column, and a list of texts. -/
def pairOr (i j : Int) (s : String) : Definition where
  table := "t"
  conditions := [⟨"a", .compare .equal, .int i, .and⟩, ⟨"a", .compare .equal, .int j, .and⟩,
    ⟨"b", .member, .list [.text s, .text s], .or⟩]

theorem sameShape_pairOr (i j i' j' : Int) (s s' : String) : (pairOr i j s).SameShape (pairOr i' j' s') := by
  refine ⟨(pairOr i' j' s').conditions, rfl, ?_⟩
  have hfirst : Condition.SameShape ⟨"a", .compare .equal, .int i, .and⟩ ⟨"a", .compare .equal, .int i', .and⟩ :=
    ⟨rfl, rfl, .int i i', rfl⟩
  have hsecond : Condition.SameShape ⟨"a", .compare .equal, .int j, .and⟩ ⟨"a", .compare .equal, .int j', .and⟩ :=
    ⟨rfl, rfl, .int j j', rfl⟩
  have hlist : Condition.SameShape ⟨"b", .member, .list [.text s, .text s], .or⟩
      ⟨"b", .member, .list [.text s', .text s'], .or⟩ :=
    ⟨rfl, rfl, .list (.cons (.text s s') (.cons (.text s s') .nil)), rfl⟩
  exact .cons hfirst (.cons hsecond (.cons hlist .nil))

theorem statement_pairOr_equal : (pairOr 1 1 "x").statement =
    .ok ⟨"SELECT * FROM \"public\".\"t\" WHERE (\"a\" = $1 OR \"b\" IN ($2, $3))", [.int 1, .text "x", .text "x"],
      [.allOf ⟨"public", "t"⟩]⟩ := by
  with_unfolding_all rfl

/-- Two equal conditions are merged in both statements. -/
theorem statement_of_sameShape_merged :
    let st : Statement := ⟨"SELECT * FROM \"public\".\"t\" WHERE (\"a\" = $1 OR \"b\" IN ($2, $3))",
      [.int 1, .text "x", .text "x"], [.allOf ⟨"public", "t"⟩]⟩
    let st' : Statement := { st with parameters := [.int 7, .text "y", .text "y"] }
    (pairOr 1 1 "x").SameShape (pairOr 7 7 "y") ∧ (pairOr 1 1 "x").statement = .ok st ∧
      (pairOr 7 7 "y").statement = .ok st' ∧
        (st.sql = st'.sql ↔ repeats (pairOr 1 1 "x").conditions = repeats (pairOr 7 7 "y").conditions) ∧
          (st.parameters.map Value.kind = st'.parameters.map Value.kind ↔
            repeats (pairOr 1 1 "x").conditions = repeats (pairOr 7 7 "y").conditions) := by
  intro st st'
  have hshape := sameShape_pairOr 1 1 7 7 "x" "y"
  have hother : (pairOr 7 7 "y").statement = .ok st' := by with_unfolding_all rfl
  exact ⟨hshape, statement_pairOr_equal, hother, statement_of_sameShape hshape statement_pairOr_equal hother⟩

/-- The text of a statement depends on the values of its conditions: equal conditions are merged, different ones
are not. -/
theorem sql_depends_on_values :
    ¬∀ (d d' : Definition) (st st' : Statement), d.SameShape d' → d.statement = .ok st → d'.statement = .ok st' →
      st.sql = st'.sql ∧ st.parameters.map Value.kind = st'.parameters.map Value.kind := by
  intro hall
  have hother : (pairOr 1 2 "x").statement =
      .ok ⟨"SELECT * FROM \"public\".\"t\" WHERE ((\"a\" = $1 AND \"a\" = $2) OR \"b\" IN ($3, $4))",
        [.int 1, .int 2, .text "x", .text "x"], [.allOf ⟨"public", "t"⟩]⟩ := by
    with_unfolding_all rfl
  have hsame := hall _ _ _ _ (sameShape_pairOr 1 1 1 2 "x" "x") statement_pairOr_equal hother
  exact absurd hsame.1 (by decide)

end SpatialQuery.Definition
