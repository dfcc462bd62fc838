import SpatialQuery.Proofs.Meaning.Filter
import SpatialQuery.Proofs.Rendering.Outlines

/-!
Written tests compared with each other. Equal tests make equal predicates, and different ones different
predicates (`beq_conditionPredicate`); tests whose values have the same kinds are written alike
(`Written.outlines`).
-/

namespace SpatialQuery.Meaning

open Definition Sql Sql.Fragment

/-! ## Equal predicates -/

theorem beq_params (vs ws : List Value) :
    (vs.map Operand.param == ws.map Operand.param) = (vs == ws) := by
  induction vs generalizing ws with
  | nil => cases ws <;> rfl
  | cons v vs ih =>
    cases ws with
    | nil => rfl
    | cons w ws =>
      rw [List.map_cons, List.map_cons, List.cons_beq_cons, List.cons_beq_cons, ih]
      rfl

/-- Predicates are equal if their tests are. -/
theorem Written.beq {c d : ColumnRef} {o o' : Operator} {vs ws : List Value} {p q : Predicate}
    (hp : Written c o vs p) (hq : Written d o' ws q) :
    (p == q) = (o == o' && (c == d && vs == ws)) := by
  -- different operators are written by different constructors, and these predicates are never equal
  cases hp with
  | compare k v =>
    cases hq with
    | compare k' w =>
      change (k == k' && (c == d && v == w)) = _
      simp [beq_eq_decide]
    | _ => rfl
  | textMatch m v =>
    cases hq with
    | textMatch m' w =>
      change (m == m' && (c == d && v == w)) = _
      simp [beq_eq_decide]
    | _ => rfl
  | isNull =>
    cases hq with
    | isNull =>
      change (c == d) = _
      simp
    | _ => rfl
  | isNotNull =>
    cases hq with
    | isNotNull =>
      change (c == d) = _
      simp
    | _ => rfl
  | member vs =>
    cases hq with
    | member ws =>
      change (c == d && vs.map Operand.param == ws.map Operand.param) = _
      simp [beq_params]
    | _ => rfl
  | notMember vs =>
    cases hq with
    | notMember ws =>
      change (c == d && vs.map Operand.param == ws.map Operand.param) = _
      simp [beq_params]
    | _ => rfl
  | between v w =>
    cases hq with
    | between v' w' =>
      change (c == d && (v == v' && w == w')) = _
      simp
    | _ => rfl
  | notBetween v w =>
    cases hq with
    | notBetween v' w' =>
      change (c == d && (v == v' && w == w')) = _
      simp
    | _ => rfl
  | spatial r wkt srid =>
    cases hq with
    | spatial r' wkt' srid' =>
      change (r == r' && (c == d && (Value.text wkt == Value.text wkt' && Value.int srid == Value.int srid'))) = _
      simp [beq_eq_decide]
    | _ => rfl
  | withinDistance wkt srid x =>
    cases hq with
    | withinDistance wkt' srid' x' =>
      change (c == d && ((Value.text wkt == Value.text wkt' && Value.int srid == Value.int srid') && x == x')) = _
      simp [Bool.and_assoc]
    | _ => rfl

/-! ## Values of the same kinds -/

theorem outlines_param {v w : Value} (h : v.kind = w.kind) :
    (Operand.param v).fragments.map outline = (Operand.param w).fragments.map outline :=
  congrArg ([Sum.inl ·]) h

theorem outlines_params {vs ws : List Value} (h : vs.map Value.kind = ws.map Value.kind) :
    (Predicate.listFragments (vs.map .param)).map outline = (Predicate.listFragments (ws.map .param)).map outline := by
  have hitems : ∀ us : List Value, ((us.map Operand.param).map (·.fragments)).map (·.map outline) =
      (us.map Value.kind).map ([Sum.inl ·]) := by
    intro us
    simp only [List.map_map]
    rfl
  simp only [Predicate.listFragments, List.map_append, List.map_cons, outlines_commaList, hitems, h]

theorem outlines_range {v w v' w' : Value} (h : [v, w].map Value.kind = [v', w'].map Value.kind)
    (ws : List String) : (Predicate.joined (Operand.param v).fragments ws (Operand.param w).fragments).map outline =
      (Predicate.joined (Operand.param v').fragments ws (Operand.param w').fragments).map outline := by
  obtain ⟨hlow, hrest⟩ := List.cons.inj h
  exact outlines_joined (outlines_param hlow) (outlines_param (List.cons.inj hrest).1) ws

/-- Tests of one column with values of the same kinds are written alike. -/
theorem Written.outlines {c : ColumnRef} {o : Operator} {vs ws : List Value} {p q : Predicate}
    (hp : Written c o vs p) (hq : Written c o ws q) (h : vs.map Value.kind = ws.map Value.kind) :
    p.fragments.map outline = q.fragments.map outline := by
  cases hp with
  | compare k v =>
    cases hq with
    | compare _ w =>
      have hvalue := outlines_param (List.cons.inj h).1
      simp only [Predicate.fragments, List.map_append, List.map_cons, hvalue]
  | textMatch m v =>
    cases hq with
    | textMatch _ w => exact outlines_textMatch (outlines_param (List.cons.inj h).1) m _
  | isNull =>
    cases hq
    rfl
  | isNotNull =>
    cases hq
    rfl
  | member vs =>
    cases hq with
    | member ws => exact outlines_joined rfl (outlines_params h) _
  | notMember vs =>
    cases hq with
    | notMember ws => exact outlines_joined rfl (outlines_params h) _
  | between v w =>
    cases hq with
    | between v' w' => exact outlines_joined rfl (outlines_range h _) _
  | notBetween v w =>
    cases hq with
    | notBetween v' w' => exact outlines_joined rfl (outlines_range h _) _
  | spatial r wkt srid =>
    cases hq with
    | spatial _ wkt' srid' =>
      refine outlines_call ?_ r.function
      rfl
  | withinDistance wkt srid x =>
    cases hq with
    | withinDistance wkt' srid' x' =>
      have hdistance := outlines_param (List.cons.inj (List.cons.inj (List.cons.inj h).2).2).1
      refine outlines_call ?_ "ST_DWithin"
      simp only [List.map_cons, hdistance]
      rfl

/-! ## Conditions -/

theorem columnNames_inj {c d : ColumnRef} (hc : c.isWildcard = false) (hd : d.isWildcard = false)
    (h : columnNames c = columnNames d) : c = d := by
  obtain ⟨cs, _ | i⟩ := c
  · cases hc
  obtain ⟨ds, _ | j⟩ := d
  · cases hd
  have hinj : Function.Injective Identifier.name := by
    rintro ⟨a, _⟩ ⟨b, _⟩ hab
    cases hab
    rfl
  obtain ⟨rfl, hlast⟩ := List.append_inj' (List.map_injective_iff.2 hinj h) rfl
  rw [(List.cons.inj hlast).1]

/-- The predicates of two conditions are equal if the conditions make equal tests. -/
theorem beq_conditionPredicate {scope : Scope} {c d : Condition} {p q : Predicate}
    (hp : conditionPredicate scope c = .ok p) (hq : conditionPredicate scope d = .ok q) :
    (p == q) = (conditionTest? c == conditionTest? d) := by
  obtain ⟨a, ha, hsingle, hwritten⟩ := conditionPredicate_written hp
  obtain ⟨b, hb, hsingle', hwritten'⟩ := conditionPredicate_written hq
  have hcolumn : (columnNames a == columnNames b) = (a == b) := by
    rw [Bool.eq_iff_iff, beq_iff_eq, beq_iff_eq]
    exact ⟨columnNames_inj hsingle hsingle', congrArg columnNames⟩
  rw [hwritten.beq hwritten', conditionTest?, conditionTest?, ha, hb]
  change _ = (columnNames a == columnNames b && ((bound c.operator c.value).1 == (bound d.operator d.value).1 &&
    (bound c.operator c.value).2 == (bound d.operator d.value).2))
  rw [hcolumn, Bool.and_left_comm]

end SpatialQuery.Meaning
