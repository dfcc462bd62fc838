import SpatialQuery.Proofs.Meaning.Rereading

/-!
The truth value of a predicate. Its expression has the same one, with the predicate's values for the
placeholders (`truth_predicateExpr`), and so has an equal predicate (`predicateTruth_of_beq`).
-/

namespace SpatialQuery.Meaning

open Definition Sql Sql.Fragment

/-- The names of an operand that is one column. -/
def column? : Operand → Option (List String)
  | .column c => if c.isWildcard then none else some (columnNames c)
  | _ => none

/-- The values of an operand that is no column. -/
def parameters? : Operand → Option (List Value)
  | .column _ => none
  | .param v => some [v]
  | .geometry wkt srid => some [.text wkt, .int srid]

def parametersOf? : List Operand → Option (List Value)
  | [] => some []
  | o :: os => do return (← parameters? o) ++ (← parametersOf? os)

def operandTest? (o : Operator) (a : Operand) (os : List Operand) : Option Test := do
  return ⟨← column? a, o, ← parametersOf? os⟩

/-- The test that a predicate makes. -/
def predicateTest? : Predicate → Option Test
  | .compare c a b => operandTest? (.compare c) a [b]
  | .isNull a => operandTest? .isNull a []
  | .isNotNull a => operandTest? .isNotNull a []
  | .member a items => if items.isEmpty then none else operandTest? .member a items
  | .notMember a items => if items.isEmpty then none else operandTest? .notMember a items
  | .between a low high => operandTest? .between a [low, high]
  | .notBetween a low high => operandTest? .notBetween a [low, high]
  | .textMatch m a b => operandTest? (.textMatch m) a [b]
  | .spatial r a b => operandTest? (.spatial r) a [b]
  | .withinDistance a b distance => operandTest? .withinDistance a [b, distance]
  | .and _ _ | .or _ _ => none

def predicateTruth (v : Test → Truth) : Predicate → Option Truth
  | .and p q => do return (← predicateTruth v p).and (← predicateTruth v q)
  | .or p q => do return (← predicateTruth v p).or (← predicateTruth v q)
  | p => (predicateTest? p).map v

theorem predicateTruth_of_test? (v : Test → Truth) {p : Predicate} {t : Test} (h : predicateTest? p = some t) :
    predicateTruth v p = some (v t) := by
  cases p with
  | and p q => cases h
  | or p q => cases h
  | _ =>
    rw [predicateTruth, h]
    · rfl
    all_goals nofun

theorem predicateTruth_and {v : Test → Truth} {p q : Predicate} {t : Truth} :
    predicateTruth v (p.and q) = some t ↔
      ∃ tp tq, predicateTruth v p = some tp ∧ predicateTruth v q = some tq ∧ tp.and tq = t := by
  simp [predicateTruth, Option.bind_eq_some_iff]

theorem predicateTruth_or {v : Test → Truth} {p q : Predicate} {t : Truth} :
    predicateTruth v (p.or q) = some t ↔
      ∃ tp tq, predicateTruth v p = some tp ∧ predicateTruth v q = some tq ∧ tp.or tq = t := by
  simp [predicateTruth, Option.bind_eq_some_iff]

/-! ## Values of operands -/

theorem parametersOf?_cons {o : Operand} {os : List Operand} {vs : List Value}
    (h : parametersOf? (o :: os) = some vs) :
    ∃ us ws, parameters? o = some us ∧ parametersOf? os = some ws ∧ us ++ ws = vs := by
  simpa [parametersOf?, Option.bind_eq_some_iff] using h

theorem parameters?_of_mem {os : List Operand} {vs : List Value} (h : parametersOf? os = some vs) :
    ∀ o ∈ os, ∃ us, parameters? o = some us := by
  induction os generalizing vs with
  | nil => exact List.forall_mem_nil _
  | cons o os ih =>
    obtain ⟨us, ws, hus, hws, -⟩ := parametersOf?_cons h
    exact List.forall_mem_cons.2 ⟨⟨us, hus⟩, ih hws⟩

theorem values_operand {o : Operand} {vs : List Value} (h : parameters? o = some vs) :
    values o.fragments = vs := by
  cases o with
  | column c => cases h
  | param v => exact Option.some.inj h
  | geometry wkt srid => exact Option.some.inj h

theorem values_commaList {os : List Operand} {vs : List Value} (h : parametersOf? os = some vs) :
    values (commaList (os.map (·.fragments))) = vs := by
  induction os generalizing vs with
  | nil => exact Option.some.inj h
  | cons o os ih =>
    obtain ⟨us, ws, hus, hws, rfl⟩ := parametersOf?_cons h
    rw [values_commaList_cons, values_operand hus, ih hws]

theorem isSingle_of_parameters? {o : Operand} {vs : List Value} (h : parameters? o = some vs) :
    isSingle o = true := by
  cases o with
  | column c => cases h
  | _ => rfl

theorem isSingle_of_parametersOf? {os : List Operand} {vs : List Value} (h : parametersOf? os = some vs) :
    os.all isSingle = true := by
  rw [List.all_eq_true]
  intro o ho
  obtain ⟨us, hus⟩ := parameters?_of_mem h o ho
  exact isSingle_of_parameters? hus

/-! ## Tests of expressions -/

theorem valueAt_append (before rest : List Value) (v : Value) :
    valueAt (before ++ v :: rest) (before.length + 1) = some v := by
  simp [valueAt]

theorem argumentValues_operand {o : Operand} {vs : List Value} (h : parameters? o = some vs)
    (before rest : List Value) :
    argumentValues? (before ++ (vs ++ rest)) (operandExpr (before.length + 1) o) = some vs := by
  cases o with
  | column c => cases h
  | param v =>
    cases h
    change (valueAt (before ++ v :: rest) (before.length + 1)).map ([·]) = _
    rw [valueAt_append]
    rfl
  | geometry wkt srid =>
    cases h
    have hfirst : paramValue? (before ++ .text wkt :: .int srid :: rest) (.param (before.length + 1)) =
        some (.text wkt) := valueAt_append before (.int srid :: rest) (.text wkt)
    -- the second placeholder stands behind the text
    have hsecond : paramValue? (before ++ .text wkt :: .int srid :: rest)
        (.param (before.length + 1 + 1)) = some (.int srid) := by
      have h := valueAt_append (before ++ [.text wkt]) rest (.int srid)
      rwa [List.length_append, List.append_assoc] at h
    change [Expr.param (before.length + 1), .param (before.length + 1 + 1)].mapM
      (paramValue? (before ++ .text wkt :: .int srid :: rest)) = _
    rw [List.mapM_cons, List.mapM_cons, List.mapM_nil, hfirst, hsecond]
    rfl

theorem argumentsValues_operands {os : List Operand} {vs : List Value} (h : parametersOf? os = some vs)
    (before rest : List Value) :
    argumentsValues? (before ++ (vs ++ rest)) (operandExprs (before.length + 1) os) = some vs := by
  induction os generalizing vs before with
  | nil => exact h
  | cons o os ih =>
    obtain ⟨us, ws, hus, hws, rfl⟩ := parametersOf?_cons h
    have hhead := argumentValues_operand hus before (ws ++ rest)
    have htail := ih hws (before ++ us)
    have hindex : o.fragments.foldl next (before.length + 1) = (before ++ us).length + 1 := by
      rw [foldl_next, values_operand hus, List.length_append]
      omega
    rw [List.append_assoc] at htail
    rw [operandExprs, argumentsValues?, hindex, List.append_assoc, hhead, htail]
    rfl

theorem operandTest?_eq_some {o : Operator} {a : Operand} {os : List Operand} {t : Test}
    (h : operandTest? o a os = some t) :
    ∃ c vs, a = .column c ∧ c.isWildcard = false ∧ parametersOf? os = some vs ∧
      t = ⟨columnNames c, o, vs⟩ := by
  simp only [operandTest?, Option.bind_eq_bind, Option.bind_eq_some_iff] at h
  obtain ⟨names, hnames, vs, hvs, ht⟩ := h
  cases a with
  | column c =>
    rw [column?] at hnames
    split at hnames
    · cases hnames
    · rename_i hc
      cases hnames
      exact ⟨c, vs, rfl, by simpa using hc, hvs, (Option.some.inj ht).symm⟩
  | param v => cases hnames
  | geometry wkt srid => cases hnames

/-- The expression of a column with operands behind it makes the same test as the operands. -/
theorem columnTest_operands {o : Operator} {a : Operand} {os : List Operand} {t : Test}
    (h : operandTest? o a os = some t) (before rest : List Value) :
    columnTest? (before ++ (t.values ++ rest)) o (operandExpr (before.length + 1) a)
      (operandExprs (a.fragments.foldl next (before.length + 1)) os) = some t := by
  obtain ⟨c, vs, rfl, -, hvs, rfl⟩ := operandTest?_eq_some h
  have hindex : (Operand.column c).fragments.foldl next (before.length + 1) = before.length + 1 := by
    rw [foldl_next]
    change before.length + 1 + (values c.fragments).length = _
    rw [values_column]
    rfl
  rw [hindex]
  change (argumentsValues? _ _).map _ = _
  rw [argumentsValues_operands hvs]
  rfl

theorem isSingle_of_operandTest? {o : Operator} {a : Operand} {os : List Operand} {t : Test}
    (h : operandTest? o a os = some t) : (a :: os).all isSingle = true := by
  obtain ⟨c, vs, rfl, hc, hvs, -⟩ := operandTest?_eq_some h
  rw [List.all_cons, isSingle_of_parametersOf? hvs, isSingle, hc]
  rfl

theorem isReadable_of_test? {p : Predicate} {t : Test} (h : predicateTest? p = some t) :
    isReadable p = true := by
  cases p with
  | isNull a | isNotNull a => exact (Bool.and_eq_true_iff.1 (isSingle_of_operandTest? h)).1
  | member a items | notMember a items =>
    obtain ⟨hne, h⟩ := Option.ite_none_left_eq_some.1 h
    have hsingle := isSingle_of_operandTest? h
    rw [List.all_cons, Bool.and_eq_true] at hsingle
    simp [isReadable, hsingle, hne]
  | and p q | or p q => cases h
  | _ => exact isSingle_of_operandTest? h

theorem values_operandTest? {o : Operator} {a : Operand} {os : List Operand} {t : Test}
    (h : operandTest? o a os = some t) :
    values a.fragments = [] ∧ values (commaList (os.map (·.fragments))) = t.values := by
  obtain ⟨c, vs, rfl, -, hvs, rfl⟩ := operandTest?_eq_some h
  exact ⟨values_column c, values_commaList hvs⟩

theorem values_predicate {p : Predicate} {t : Test} (h : predicateTest? p = some t) :
    values p.fragments = t.values := by
  -- the column has no values, and those of the other operands stand in their order
  cases p with
  | compare c a b =>
    obtain ⟨ha, hvalues⟩ := values_operandTest? h
    rw [Predicate.fragments, values_compare, ha, ← hvalues]
    simp [commaList_singleton]
  | isNull a | isNotNull a =>
    obtain ⟨ha, hvalues⟩ := values_operandTest? h
    rw [Predicate.fragments, values_append, ha, ← hvalues]
    rfl
  | member a items | notMember a items =>
    obtain ⟨ha, hvalues⟩ := values_operandTest? (Option.ite_none_left_eq_some.1 h).2
    rw [Predicate.fragments, values_joined, values_list, ha, hvalues, List.nil_append]
  | between a low high | notBetween a low high =>
    obtain ⟨ha, hvalues⟩ := values_operandTest? h
    rw [Predicate.fragments, values_joined, values_joined, ha, ← hvalues, values_commaList_cons,
      List.map_singleton, commaList_singleton, List.nil_append]
  | textMatch m a b =>
    obtain ⟨ha, hvalues⟩ := values_operandTest? h
    rw [Predicate.fragments, values_textMatch, ha, ← hvalues]
    simp [commaList_singleton]
  | spatial r a b =>
    obtain ⟨ha, hvalues⟩ := values_operandTest? h
    have hcall := values_call r.function [a, b]
    rw [values_commaList_cons, ha, hvalues] at hcall
    exact hcall
  | withinDistance a b distance =>
    obtain ⟨ha, hvalues⟩ := values_operandTest? h
    have hcall := values_call "ST_DWithin" [a, b, distance]
    rw [values_commaList_cons, ha, hvalues] at hcall
    exact hcall
  | and p q | or p q => cases h

/-- A parameter is no pattern of its own. -/
theorem exprTest_match (m : TextMatch) {b : Operand} {vs : List Value} (h : parameters? b = some vs)
    (values : List Value) (a : Expr) (index : Nat) :
    exprTest? values (matchExpr m a (operandExpr index b)) =
      columnTest? values (.textMatch m) a [operandExpr index b] := by
  cases b with
  | column c => cases h
  | _ => cases m <;> rfl

theorem exprTest_predicate {p : Predicate} {t : Test} (h : predicateTest? p = some t)
    (before rest : List Value) :
    exprTest? (before ++ (t.values ++ rest)) (predicateExpr (before.length + 1) p) = some t := by
  cases p with
  | compare c a b => exact columnTest_operands h before rest
  | isNull a | isNotNull a => exact columnTest_operands h before rest
  | member a items | notMember a items =>
    exact columnTest_operands (Option.ite_none_left_eq_some.1 h).2 before rest
  | between a low high | notBetween a low high => exact columnTest_operands h before rest
  | textMatch m a b =>
    have htest := columnTest_operands h before rest
    obtain ⟨_, _, _, _, hvs, _⟩ := operandTest?_eq_some h
    obtain ⟨us, _, hus, _, _⟩ := parametersOf?_cons hvs
    rw [predicateExpr, exprTest_match m hus]
    exact htest
  | spatial r a b =>
    have htest := columnTest_operands h before rest
    cases r <;> exact htest
  | withinDistance a b distance => exact columnTest_operands h before rest
  | and p q | or p q => cases h

/-! ## Truth values -/

theorem truth_of_test? (v : Test → Truth) {values : List Value} {e : Expr} {t : Test}
    (h : exprTest? values e = some t) : truth v values e = some (v t) := by
  unfold truth
  split
  · cases h
  · cases h
  · rw [h]
    rfl

theorem isReadable_of_truth {v : Test → Truth} {p : Predicate} {t : Truth}
    (h : predicateTruth v p = some t) : isReadable p = true := by
  induction p generalizing t with
  | and p q ihp ihq =>
    obtain ⟨tp, tq, htp, htq, -⟩ := predicateTruth_and.1 h
    rw [isReadable, ihp htp, ihq htq]
    rfl
  | or p q ihp ihq =>
    obtain ⟨tp, tq, htp, htq, -⟩ := predicateTruth_or.1 h
    rw [isReadable, ihp htp, ihq htq]
    rfl
  | _ =>
    obtain ⟨test, htest, -⟩ := Option.map_eq_some_iff.1 h
    exact isReadable_of_test? htest

/-- The expression has the truth value wherever the values of the predicate stand. -/
def HasTruth (v : Test → Truth) (p : Predicate) (t : Truth) : Prop :=
  ∀ before rest, truth v (before ++ (values p.fragments ++ rest)) (predicateExpr (before.length + 1) p) = some t

/-- Two predicates whose values stand one behind the other. -/
theorem HasTruth.pair {v : Test → Truth} {p q : Predicate} {t u : Truth} (hp : HasTruth v p t)
    (hq : HasTruth v q u) (before rest : List Value) :
    truth v (before ++ (values p.fragments ++ values q.fragments ++ rest))
        (predicateExpr (before.length + 1) p) = some t ∧
      truth v (before ++ (values p.fragments ++ values q.fragments ++ rest))
        (predicateExpr (p.fragments.foldl next (before.length + 1)) q) = some u := by
  -- the values of `p` stand in front of those of `q`
  have hindex : p.fragments.foldl next (before.length + 1) = (before ++ values p.fragments).length + 1 := by
    rw [foldl_next, List.length_append]
    omega
  have hsecond := hq (before ++ values p.fragments) rest
  rw [List.append_assoc] at hsecond
  rw [hindex, List.append_assoc]
  exact ⟨hp before (values q.fragments ++ rest), hsecond⟩

theorem HasTruth.and {v : Test → Truth} {p q : Predicate} {t u : Truth} (hp : HasTruth v p t)
    (hq : HasTruth v q u) : HasTruth v (p.and q) (t.and u) := by
  intro before rest
  obtain ⟨hfirst, hsecond⟩ := hp.pair hq before rest
  rw [Predicate.fragments, values_group, predicateExpr, truth, hfirst, hsecond]
  rfl

theorem HasTruth.or {v : Test → Truth} {p q : Predicate} {t u : Truth} (hp : HasTruth v p t)
    (hq : HasTruth v q u) : HasTruth v (p.or q) (t.or u) := by
  intro before rest
  obtain ⟨hfirst, hsecond⟩ := hp.pair hq before rest
  rw [Predicate.fragments, values_group, predicateExpr, truth, hfirst, hsecond]
  rfl

theorem hasTruth {v : Test → Truth} {p : Predicate} {t : Truth} (h : predicateTruth v p = some t) :
    HasTruth v p t := by
  induction p generalizing t with
  | and p q ihp ihq =>
    obtain ⟨tp, tq, htp, htq, rfl⟩ := predicateTruth_and.1 h
    exact (ihp htp).and (ihq htq)
  | or p q ihp ihq =>
    obtain ⟨tp, tq, htp, htq, rfl⟩ := predicateTruth_or.1 h
    exact (ihp htp).or (ihq htq)
  | _ =>
    obtain ⟨test, htest, rfl⟩ := Option.map_eq_some_iff.1 h
    intro before rest
    rw [values_predicate htest]
    exact truth_of_test? v (exprTest_predicate htest before rest)

/-- The text of a predicate is read with the truth value of the predicate. -/
theorem filterTruth_some {v : Test → Truth} {p : Predicate} {t : Truth} (h : predicateTruth v p = some t) :
    filterTruth v (some p) = some t := by
  have htruth := hasTruth h [] []
  rw [List.nil_append, List.append_nil] at htruth
  rw [filterTruth, readExpr_predicate (isReadable_of_truth h)]
  exact htruth

/-! ## Equal predicates -/

theorem beq_append {us vs ws xs : List Value} (h : (us == vs) = true) (h' : (ws == xs) = true) :
    (us ++ ws == vs ++ xs) = true := by
  induction us generalizing vs with
  | nil =>
    cases vs with
    | nil => exact h'
    | cons v vs => cases h
  | cons u us ih =>
    cases vs with
    | nil => cases h
    | cons v vs =>
      rw [List.cons_beq_cons, Bool.and_eq_true] at h
      rw [List.cons_append, List.cons_append, List.cons_beq_cons, h.1, ih h.2]
      rfl

theorem column?_of_beq {a b : Operand} (h : (a == b) = true) : column? a = column? b := by
  cases a with
  | column c =>
    cases b with
    | column d =>
      have hcd : (c == d) = true := h
      rw [eq_of_beq hcd]
    | _ => cases h
  | _ =>
    cases b with
    | column d => cases h
    | _ => rfl

theorem parameters?_of_beq {a b : Operand} (h : (a == b) = true) {vs : List Value}
    (hvs : parameters? a = some vs) : ∃ ws, parameters? b = some ws ∧ (vs == ws) = true := by
  cases a with
  | column c => cases hvs
  | param v =>
    cases hvs
    cases b with
    | param w =>
      have hvw : (v == w) = true := h
      exact ⟨[w], rfl, by rw [List.cons_beq_cons, hvw]; rfl⟩
    | _ => cases h
  | geometry wkt srid =>
    cases hvs
    cases b with
    | geometry wkt' srid' =>
      have hg : (wkt == wkt' && srid == srid') = true := h
      rw [Bool.and_eq_true] at hg
      refine ⟨_, rfl, ?_⟩
      have htext : ((Value.text wkt) == (Value.text wkt')) = true := hg.1
      have hint : ((Value.int srid) == (Value.int srid')) = true := hg.2
      rw [List.cons_beq_cons, List.cons_beq_cons, htext, hint]
      rfl
    | _ => cases h

theorem parametersOf?_of_beq {os os' : List Operand} (h : (os == os') = true) {vs : List Value}
    (hvs : parametersOf? os = some vs) : ∃ ws, parametersOf? os' = some ws ∧ (vs == ws) = true := by
  induction os generalizing os' vs with
  | nil =>
    cases os' with
    | nil => exact ⟨vs, hvs, by cases hvs; rfl⟩
    | cons o os' => cases h
  | cons o os ih =>
    obtain ⟨us, ws, hus, hws, rfl⟩ := parametersOf?_cons hvs
    cases os' with
    | nil => cases h
    | cons o' os' =>
      rw [List.cons_beq_cons, Bool.and_eq_true] at h
      obtain ⟨us', hus', hu⟩ := parameters?_of_beq h.1 hus
      obtain ⟨ws', hws', hw⟩ := ih h.2 hws
      refine ⟨us' ++ ws', ?_, beq_append hu hw⟩
      rw [parametersOf?, hus', hws']
      rfl

theorem beq_singleton {a b : Operand} (h : (a == b) = true) : ([a] == [b]) = true := by
  rw [List.cons_beq_cons, h]
  rfl

theorem beq_pair {a b c d : Operand} (h : (a == c && b == d) = true) : ([a, b] == [c, d]) = true := by
  rw [Bool.and_eq_true] at h
  rw [List.cons_beq_cons, h.1, beq_singleton h.2]
  rfl

section Respects

variable {v : Test → Truth} (hv : Respects v)

include hv

theorem operandTest?_of_beq {o : Operator} {a b : Operand} {os os' : List Operand} (h : (a == b) = true)
    (hos : (os == os') = true) {t : Truth} (ht : (operandTest? o a os).map v = some t) :
    (operandTest? o b os').map v = some t := by
  obtain ⟨test, htest, rfl⟩ := Option.map_eq_some_iff.1 ht
  obtain ⟨c, vs, rfl, hc, hvs, rfl⟩ := operandTest?_eq_some htest
  obtain ⟨ws, hws, hvw⟩ := parametersOf?_of_beq hos hvs
  have hcolumn : column? b = some (columnNames c) := by
    rw [← column?_of_beq h, column?, hc]
    rfl
  -- the tests differ in their values at most, which are equal as values
  have hequal : ((⟨columnNames c, o, vs⟩ : Test) == ⟨columnNames c, o, ws⟩) = true := by
    change (columnNames c == columnNames c && (o == o && vs == ws)) = true
    rw [hvw, beq_self_eq_true, beq_self_eq_true]
    rfl
  rw [operandTest?, hcolumn, hws, hv _ _ hequal]
  rfl

/-- Tests of two operands whose operators have a parameter. -/
theorem pairTest?_of_beq {α : Type} [BEq α] [LawfulBEq α] {f : α → Operator} {x y : α} {a b c d : Operand}
    (h : (x == y && (a == c && b == d)) = true) {t : Truth} (ht : (operandTest? (f x) a [b]).map v = some t) :
    (operandTest? (f y) c [d]).map v = some t := by
  obtain ⟨hx, hoperands⟩ := Bool.and_eq_true_iff.1 h
  obtain ⟨ha, hb⟩ := Bool.and_eq_true_iff.1 hoperands
  obtain rfl := eq_of_beq hx
  exact operandTest?_of_beq hv ha (beq_singleton hb) ht

theorem rangeTest?_of_beq {o : Operator} {a low high b low' high' : Operand}
    (h : (a == b && (low == low' && high == high')) = true) {t : Truth}
    (ht : (operandTest? o a [low, high]).map v = some t) : (operandTest? o b [low', high']).map v = some t := by
  obtain ⟨ha, hrange⟩ := Bool.and_eq_true_iff.1 h
  exact operandTest?_of_beq hv ha (beq_pair hrange) ht

theorem memberTest?_of_beq {o : Operator} {a b : Operand} {os os' : List Operand}
    (h : (a == b && os == os') = true) {t : Truth}
    (ht : (if os.isEmpty then none else operandTest? o a os).map v = some t) :
    (if os'.isEmpty then none else operandTest? o b os').map v = some t := by
  obtain ⟨ha, hos⟩ := Bool.and_eq_true_iff.1 h
  cases os with
  | nil => cases ht
  | cons x xs =>
    cases os' with
    | nil => cases hos
    | cons y ys => exact operandTest?_of_beq hv ha hos ht

/-- The tests of equal predicates have one truth value. -/
theorem predicateTest?_of_beq {p q : Predicate} (h : (p == q) = true) {t : Truth}
    (ht : (predicateTest? p).map v = some t) : (predicateTest? q).map v = some t := by
  cases p with
  | compare k a b =>
    cases q with
    | compare k' a' b' => exact pairTest?_of_beq hv h ht
    | _ => cases h
  | isNull a =>
    cases q with
    | isNull a' => exact operandTest?_of_beq hv h rfl ht
    | _ => cases h
  | isNotNull a =>
    cases q with
    | isNotNull a' => exact operandTest?_of_beq hv h rfl ht
    | _ => cases h
  | member a items =>
    cases q with
    | member a' items' => exact memberTest?_of_beq hv h ht
    | _ => cases h
  | notMember a items =>
    cases q with
    | notMember a' items' => exact memberTest?_of_beq hv h ht
    | _ => cases h
  | between a low high =>
    cases q with
    | between a' low' high' => exact rangeTest?_of_beq hv h ht
    | _ => cases h
  | notBetween a low high =>
    cases q with
    | notBetween a' low' high' => exact rangeTest?_of_beq hv h ht
    | _ => cases h
  | textMatch m a b =>
    cases q with
    | textMatch m' a' b' => exact pairTest?_of_beq hv h ht
    | _ => cases h
  | spatial r a b =>
    cases q with
    | spatial r' a' b' => exact pairTest?_of_beq hv h ht
    | _ => cases h
  | withinDistance a b distance =>
    cases q with
    | withinDistance a' b' distance' => exact rangeTest?_of_beq hv h ht
    | _ => cases h
  | and p p' | or p p' => cases ht

/-- Equal predicates have one truth value. -/
theorem predicateTruth_of_beq {p q : Predicate} (h : (p == q) = true) {t : Truth}
    (ht : predicateTruth v p = some t) : predicateTruth v q = some t := by
  induction p generalizing q t with
  | and p p' ihp ihp' =>
    cases q with
    | and q q' =>
      obtain ⟨hp, hp'⟩ := Bool.and_eq_true_iff.1 h
      obtain ⟨tp, tp', htp, htp', rfl⟩ := predicateTruth_and.1 ht
      exact predicateTruth_and.2 ⟨tp, tp', ihp hp htp, ihp' hp' htp', rfl⟩
    | _ => cases h
  | or p p' ihp ihp' =>
    cases q with
    | or q q' =>
      obtain ⟨hp, hp'⟩ := Bool.and_eq_true_iff.1 h
      obtain ⟨tp, tp', htp, htp', rfl⟩ := predicateTruth_or.1 ht
      exact predicateTruth_or.2 ⟨tp, tp', ihp hp htp, ihp' hp' htp', rfl⟩
    | _ => cases h
  | _ =>
    cases q with
    | and q q' | or q q' => cases h
    | _ => exact predicateTest?_of_beq hv h ht

end Respects

end SpatialQuery.Meaning
