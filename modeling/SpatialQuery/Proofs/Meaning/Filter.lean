import SpatialQuery.Proofs.Definition.Compiled
import SpatialQuery.Proofs.Meaning.Predicates

/-!
A filter means its conditions, joined from left to right. Each condition becomes a predicate that writes its
test (`Written`) and is read as the same test (`conditionPredicate_test`), and joining predicates joins their
truth values, also where equal ones are merged. What the text of the filter is read as has the same truth value
(`filter_means`).
-/

namespace SpatialQuery.Meaning

open Definition Sql

/-! ## Operands -/

theorem operandTest?_column {c : ColumnRef} (hc : c.isWildcard = false) (o : Operator) {os : List Operand}
    {vs : List Value} (h : parametersOf? os = some vs) :
    operandTest? o (.column c) os = some ⟨columnNames c, o, vs⟩ := by
  rw [operandTest?, column?, hc, h]
  rfl

theorem single_ok {v : Comparand} {b : Operand} (h : single v = .ok b) :
    ∃ w, v.scalar? = some w ∧ b = .param w := by
  unfold single at h
  split at h
  · rename_i w hw
    exact ⟨w, hw, (Except.ok.inj h).symm⟩
  · cases h

theorem textOperand_ok {v : Comparand} {b : Operand} (h : textOperand v = .ok b) :
    ∃ s, v = .text s ∧ b = .param (.text s) := by
  cases v with
  | text s => exact ⟨s, rfl, (Except.ok.inj h).symm⟩
  | _ => cases h

theorem params_of_singles {items : List Comparand} {os : List Operand}
    (h : List.Forall₂ (fun v b => single v = .ok b) items os) :
    os = (items.filterMap Comparand.scalar?).map .param := by
  induction h with
  | nil => rfl
  | cons hhead _ ih =>
    obtain ⟨w, hw, rfl⟩ := single_ok hhead
    rw [List.filterMap_cons, hw, List.map_cons, ← ih]

theorem listOperands_params {v : Comparand} {os : List Operand} (h : listOperands v = .ok os) :
    ∃ items, v = .list items ∧ items.filterMap Comparand.scalar? ≠ [] ∧
      os = (items.filterMap Comparand.scalar?).map .param := by
  unfold listOperands at h
  split at h
  · cases h
  · rename_i items hne
    have hall := mapM_ok_iff.1 h
    refine ⟨items, rfl, fun hnil => hne ?_, params_of_singles hall⟩
    have hos := params_of_singles hall
    rw [hnil] at hos
    rw [hos] at hall
    cases hall
    rfl
  · cases h

theorem rangeOperands_params {v : Comparand} {low high : Operand} (h : rangeOperands v = .ok (low, high)) :
    ∃ a b, bound .between v = (.between, [a, b]) ∧ bound .notBetween v = (.notBetween, [a, b]) ∧
      low = .param a ∧ high = .param b := by
  unfold rangeOperands at h
  split at h
  · simp only [bind_ok_iff] at h
    obtain ⟨l, hl, u, hu, hpair⟩ := h
    cases hpair
    obtain ⟨a, ha, rfl⟩ := single_ok hl
    obtain ⟨b, hb, rfl⟩ := single_ok hu
    exact ⟨a, b, by simp [bound, ha, hb], by simp [bound, ha, hb], rfl, rfl⟩
  · cases h

theorem geometryOf_ok {v : Comparand} {g : GeometryText} (h : geometryOf v = .ok g) : v = .geometry g := by
  unfold geometryOf at h
  split at h
  · split at h
    · cases h
    · cases h
      rfl
  · cases h

/-! ## Written tests -/

/-- The predicate writes the test of a column with an operator and the values that it binds. -/
inductive Written (c : ColumnRef) : Operator → List Value → Predicate → Prop
  | compare (k : Comparison) (v : Value) :
      Written c (.compare k) [v] (.compare k (.column c) (.param v))
  | textMatch (m : TextMatch) (v : Value) :
      Written c (.textMatch m) [v] (.textMatch m (.column c) (.param v))
  | isNull : Written c .isNull [] (.isNull (.column c))
  | isNotNull : Written c .isNotNull [] (.isNotNull (.column c))
  | member (vs : List Value) : Written c .member vs (.member (.column c) (vs.map .param))
  | notMember (vs : List Value) : Written c .notMember vs (.notMember (.column c) (vs.map .param))
  | between (v w : Value) :
      Written c .between [v, w] (.between (.column c) (.param v) (.param w))
  | notBetween (v w : Value) :
      Written c .notBetween [v, w] (.notBetween (.column c) (.param v) (.param w))
  | spatial (r : SpatialRelation) (wkt : String) (srid : Int) :
      Written c (.spatial r) [.text wkt, .int srid] (.spatial r (.column c) (.geometry wkt srid))
  | withinDistance (wkt : String) (srid : Int) (x : Value) :
      Written c .withinDistance [.text wkt, .int srid, x]
        (.withinDistance (.column c) (.geometry wkt srid) (.param x))

theorem bound_compare (c : Comparison) {v : Comparand} {w : Value} (h : v.scalar? = some w) :
    bound (.compare c) v = (.compare c, [w]) := by
  cases v with
  | null => cases h
  | list items => cases h
  | geometry g => cases h
  | _ =>
    cases h
    cases c <;> rfl

theorem predicateOf_compare (c : ColumnRef) (comparison : Comparison) {v : Comparand} (hv : v ≠ .null) :
    predicateOf c (.compare comparison) v = (single v).map (.compare comparison (.column c)) := by
  cases v with
  | null => exact absurd rfl hv
  | _ => cases comparison <;> rfl

/-- What is written are the operator and the values that the condition binds. Only tests for null bind none. -/
theorem written_predicateOf {c : ColumnRef} {o : Operator} {v : Comparand} {p : Predicate}
    (h : predicateOf c o v = .ok p) : Written c (bound o v).1 (bound o v).2 p ∧
      ((bound o v).2 = [] → (bound o v).1 = .isNull ∨ (bound o v).1 = .isNotNull) := by
  cases o with
  | compare k =>
    -- a comparison with null tests for null, or is refused
    by_cases hnull : v = .null
    · subst hnull
      cases k with
      | equal => cases h; exact ⟨.isNull, fun _ => .inl rfl⟩
      | notEqual => cases h; exact ⟨.isNotNull, fun _ => .inr rfl⟩
      | _ => cases h
    · rw [predicateOf_compare c k hnull] at h
      obtain ⟨b, hb, rfl⟩ := map_ok_iff.1 h
      obtain ⟨w, hw, rfl⟩ := single_ok hb
      rw [bound_compare k hw]
      exact ⟨.compare k w, nofun⟩
  | textMatch m =>
    obtain ⟨b, hb, rfl⟩ := map_ok_iff.1 h
    obtain ⟨s, rfl, rfl⟩ := textOperand_ok hb
    exact ⟨.textMatch m (.text s), nofun⟩
  | isNull => cases h; exact ⟨.isNull, fun _ => .inl rfl⟩
  | isNotNull => cases h; exact ⟨.isNotNull, fun _ => .inr rfl⟩
  | member =>
    obtain ⟨os, hos, rfl⟩ := map_ok_iff.1 h
    obtain ⟨items, rfl, hne, rfl⟩ := listOperands_params hos
    exact ⟨.member _, fun hnil => absurd hnil hne⟩
  | notMember =>
    obtain ⟨os, hos, rfl⟩ := map_ok_iff.1 h
    obtain ⟨items, rfl, hne, rfl⟩ := listOperands_params hos
    exact ⟨.notMember _, fun hnil => absurd hnil hne⟩
  | between =>
    obtain ⟨⟨low, high⟩, hrange, rfl⟩ := map_ok_iff.1 h
    obtain ⟨a, b, hbound, -, rfl, rfl⟩ := rangeOperands_params hrange
    rw [hbound]
    exact ⟨.between a b, nofun⟩
  | notBetween =>
    obtain ⟨⟨low, high⟩, hrange, rfl⟩ := map_ok_iff.1 h
    obtain ⟨a, b, -, hbound, rfl, rfl⟩ := rangeOperands_params hrange
    rw [hbound]
    exact ⟨.notBetween a b, nofun⟩
  | spatial r =>
    obtain ⟨g, hg, rfl⟩ := map_ok_iff.1 h
    cases geometryOf_ok hg
    exact ⟨.spatial r g.wkt g.srid, nofun⟩
  | withinDistance =>
    simp only [predicateOf] at h
    split at h
    · cases h
    · rename_i g hg
      cases geometryOf_ok hg
      split at h
      · cases h
      · rename_i x hx
        cases h
        rw [bound, hx]
        exact ⟨.withinDistance g.wkt g.srid (.float x), nofun⟩

theorem parametersOf?_params (vs : List Value) : parametersOf? (vs.map .param) = some vs := by
  induction vs with
  | nil => rfl
  | cons v vs ih =>
    rw [List.map_cons, parametersOf?, ih]
    rfl

theorem Written.test {c : ColumnRef} {o : Operator} {vs : List Value} {p : Predicate} (h : Written c o vs p)
    (hc : c.isWildcard = false) (hvalues : vs = [] → o = .isNull ∨ o = .isNotNull) :
    predicateTest? p = some ⟨columnNames c, o, vs⟩ := by
  cases h with
  | member vs | notMember vs =>
    have hitems : (vs.map Operand.param).isEmpty = false := by
      cases vs with
      | nil => exact absurd (hvalues rfl) nofun
      | cons => rfl
    rw [predicateTest?, hitems]
    exact operandTest?_column hc _ (parametersOf?_params vs)
  | _ => exact operandTest?_column hc _ rfl

/-! ## Conditions -/

theorem columnIn_ok {scope : Scope} {s : String} {c : ColumnRef} (h : columnIn scope s = .ok c) :
    ColumnRef.read s = .ok c ∧ c.isWildcard = false := by
  obtain ⟨c', href, h⟩ := bind_ok_iff.1 h
  have hread := readRef_ok href
  split at h
  · cases h
  · rename_i hsingle
    obtain ⟨_, _, hc⟩ := bind_ok_iff.1 h
    cases hc
    exact ⟨hread, by simpa using hsingle⟩

theorem conditionPredicate_ok {scope : Scope} {c : Condition} {p : Predicate}
    (h : conditionPredicate scope c = .ok p) :
    ∃ column, columnIn scope c.column = .ok column ∧ predicateOf column c.operator c.value = .ok p := by
  unfold conditionPredicate at h
  split at h
  · cases h
  · rename_i column hcolumn
    split at h
    · cases h
    · rename_i q hq
      cases h
      exact ⟨column, hcolumn, hq⟩

theorem conditionPredicate_written {scope : Scope} {c : Condition} {p : Predicate}
    (h : conditionPredicate scope c = .ok p) :
    ∃ column, ColumnRef.read c.column = .ok column ∧ column.isWildcard = false ∧
      Written column (bound c.operator c.value).1 (bound c.operator c.value).2 p := by
  obtain ⟨column, hcolumn, hp⟩ := conditionPredicate_ok h
  obtain ⟨hread, hsingle⟩ := columnIn_ok hcolumn
  exact ⟨column, hread, hsingle, (written_predicateOf hp).1⟩

theorem conditionPredicate_test {scope : Scope} {c : Condition} {p : Predicate}
    (h : conditionPredicate scope c = .ok p) : ∃ t, conditionTest? c = some t ∧ predicateTest? p = some t := by
  obtain ⟨column, hcolumn, hp⟩ := conditionPredicate_ok h
  obtain ⟨hread, hsingle⟩ := columnIn_ok hcolumn
  obtain ⟨hwritten, hvalues⟩ := written_predicateOf hp
  exact ⟨_, by rw [conditionTest?, hread], hwritten.test hsingle hvalues⟩

/-- The values of a condition's predicate are the ones that the condition binds. -/
theorem values_conditionPredicate_eq {scope : Scope} {c : Condition} {p : Predicate}
    (h : conditionPredicate scope c = .ok p) : Fragment.values p.fragments = (bound c.operator c.value).2 := by
  obtain ⟨t, ht, htest⟩ := conditionPredicate_test h
  rw [values_predicate htest]
  unfold conditionTest? at ht
  split at ht
  · cases ht
  · cases ht
    rfl

/-! ## Joined conditions -/

theorem filterFrom_cons (scope : Scope) (p : Predicate) (c : Condition) (cs : List Condition) :
    filterFrom scope p (c :: cs) =
      conditionPredicate scope c >>= fun q => filterFrom scope (connect p c.connective q) cs := by
  conv => lhs; unfold filterFrom
  generalize conditionPredicate scope c = x
  cases x <;> rfl

theorem filter_cons (scope : Scope) (c : Condition) (cs : List Condition) :
    filter scope (c :: cs) =
      conditionPredicate scope c >>= fun p => (filterFrom scope p cs).map some := by
  delta filter
  dsimp only
  generalize conditionPredicate scope c = x
  cases x <;> rfl

section Joined

variable {P : Predicate → Prop} (hand : ∀ {p q}, P p → P q → P (p.and q)) (hor : ∀ {p q}, P p → P q → P (p.or q))
  {scope : Scope} {p q r : Predicate} {cs : List Condition}

include hand hor

theorem connect_of (hp : P p) (hq : P q) (k : Connective) : P (connect p k q) := by
  cases k with
  | and =>
    change P (if p == q then p else p.and q)
    split
    · exact hp
    · exact hand hp hq
  | or =>
    change P (if p == q then p else p.or q)
    split
    · exact hp
    · exact hor hp hq

theorem filterFrom_of (h : filterFrom scope p cs = .ok r) (hp : P p)
    (hcs : ∀ c ∈ cs, ∀ q, conditionPredicate scope c = .ok q → P q) : P r := by
  induction cs generalizing p with
  | nil =>
    cases h
    exact hp
  | cons c cs ih =>
    rw [List.forall_mem_cons] at hcs
    rw [filterFrom_cons] at h
    obtain ⟨q, hq, hrest⟩ := bind_ok_iff.1 h
    exact ih hrest (connect_of hand hor hp (hcs.1 q hq) c.connective) hcs.2

/-- What the predicates of the conditions have, and conjunctions and disjunctions keep, the filter has. -/
theorem filter_of {condition : Option Predicate} (h : filter scope cs = .ok condition)
    (hcs : ∀ c ∈ cs, ∀ q, conditionPredicate scope c = .ok q → P q) : ∀ p ∈ condition, P p := by
  cases cs with
  | nil =>
    cases h
    nofun
  | cons c cs =>
    rw [List.forall_mem_cons] at hcs
    rw [filter_cons] at h
    obtain ⟨p, hp, hrest⟩ := bind_ok_iff.1 h
    obtain ⟨r, hr, rfl⟩ := map_ok_iff.1 hrest
    rintro _ ⟨⟩
    exact filterFrom_of hand hor hr (hcs.1 p hp) hcs.2

end Joined

theorem predicateTruth_connect {v : Test → Truth} (hv : Respects v) {p q : Predicate} {t u : Truth}
    (hp : predicateTruth v p = some t) (hq : predicateTruth v q = some u) (k : Connective) :
    predicateTruth v (connect p k q) = some (joinTruth k t u) := by
  cases k with
  | and =>
    change predicateTruth v (if p == q then p else p.and q) = some (t.and u)
    split
    · rename_i hequal
      -- merged predicates have one truth value
      obtain rfl : t = u := Option.some.inj ((predicateTruth_of_beq hv hequal hp).symm.trans hq)
      rw [hp, Truth.and_self]
    · exact predicateTruth_and.2 ⟨t, u, hp, hq, rfl⟩
  | or =>
    change predicateTruth v (if p == q then p else p.or q) = some (t.or u)
    split
    · rename_i hequal
      obtain rfl : t = u := Option.some.inj ((predicateTruth_of_beq hv hequal hp).symm.trans hq)
      rw [hp, Truth.or_self]
    · exact predicateTruth_or.2 ⟨t, u, hp, hq, rfl⟩

/-- Joining one more condition keeps the predicate and the conditions before it at one truth value, so all
of them are joined with one truth value. -/
theorem filterFrom_truth {v : Test → Truth} (hv : Respects v) {scope : Scope} {p r : Predicate}
    {cs : List Condition} (h : filterFrom scope p cs = .ok r) {t : Truth} (ht : predicateTruth v p = some t) :
    ∃ u, foldFrom v t cs = some u ∧ predicateTruth v r = some u := by
  -- `p` and the conditions in front of `cs` have the truth value `t`
  induction cs generalizing p t with
  | nil =>
    cases h
    exact ⟨t, rfl, ht⟩
  | cons c cs ih =>
    rw [filterFrom_cons] at h
    obtain ⟨q, hq, hrest⟩ := bind_ok_iff.1 h
    obtain ⟨test, htest, hpredicate⟩ := conditionPredicate_test hq
    have hjoined := predicateTruth_connect hv ht (predicateTruth_of_test? v hpredicate) c.connective
    obtain ⟨u, hfold, hu⟩ := ih hrest hjoined
    exact ⟨u, by rw [foldFrom, htest]; exact hfold, hu⟩

/-- A filter that is made of conditions has the truth value of the conditions, joined from left to right;
only no conditions make no filter. -/
theorem filter_means {scope : Scope} {cs : List Condition} {result : Option Predicate}
    (h : filter scope cs = .ok result) {v : Test → Truth} (hv : Respects v) :
    (result = none ↔ cs = []) ∧ (fold v cs).isSome = true ∧ filterTruth v result = fold v cs := by
  cases cs with
  | nil =>
    cases h
    exact ⟨by simp, rfl, rfl⟩
  | cons c cs =>
    rw [filter_cons] at h
    obtain ⟨p, hp, hrest⟩ := bind_ok_iff.1 h
    obtain ⟨r, hr, rfl⟩ := map_ok_iff.1 hrest
    obtain ⟨test, htest, hpredicate⟩ := conditionPredicate_test hp
    obtain ⟨u, hfold, hu⟩ := filterFrom_truth hv hr (predicateTruth_of_test? v hpredicate)
    have hall : fold v (c :: cs) = some u := by
      rw [fold, htest]
      exact hfold
    rw [hall, filterTruth_some hu]
    exact ⟨by simp, rfl, rfl⟩

/-- Conditions with both connectives. The second one repeats the first, whose connective joins nothing. -/
def mixedConditions : List Condition :=
  [⟨"a", .compare .equal, .int 1, .or⟩, ⟨"a", .compare .equal, .int 1, .and⟩,
    ⟨"b", .between, .list [.int 2, .int 3], .or⟩, ⟨"c", .compare .equal, .null, .and⟩]

def mixedScope : Scope :=
  [⟨⟨"public", by decide⟩, ⟨"t", by decide⟩, none⟩]

/-- The filter `(("a" = $1 OR "b" BETWEEN $2 AND $3) AND "c" IS NULL)`. -/
def mixedFilter : Predicate :=
  .and
    (.or (.compare .equal (.column ⟨[], some ⟨"a", by decide⟩⟩) (.param (.int 1)))
      (.between (.column ⟨[], some ⟨"b", by decide⟩⟩) (.param (.int 2)) (.param (.int 3))))
    (.isNull (.column ⟨[], some ⟨"c", by decide⟩⟩))

theorem filter_mixed : filter mixedScope mixedConditions = .ok (some mixedFilter) := by
  with_unfolding_all rfl

/-- Only tests of the column `a` hold. -/
def onlyFirst (t : Test) : Truth :=
  if t.column = ["a"] then .yes else .no

theorem respects_onlyFirst : Respects onlyFirst := by
  intro t u h
  obtain ⟨hcolumn, -⟩ := Bool.and_eq_true_iff.1 h
  rw [onlyFirst, onlyFirst, eq_of_beq hcolumn]

/-- Conditions that do not hold from left to right, though they would if `AND` were joined first. -/
theorem filter_means_mixed :
    filter mixedScope mixedConditions = .ok (some mixedFilter) ∧ Respects onlyFirst ∧
      fold onlyFirst mixedConditions = some .no ∧
        (some mixedFilter = none ↔ mixedConditions = []) ∧
          (fold onlyFirst mixedConditions).isSome = true ∧
            filterTruth onlyFirst (some mixedFilter) = fold onlyFirst mixedConditions :=
  ⟨filter_mixed, respects_onlyFirst, by with_unfolding_all rfl, filter_means filter_mixed respects_onlyFirst⟩

end SpatialQuery.Meaning
