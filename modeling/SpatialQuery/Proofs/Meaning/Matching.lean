import Mathlib.Data.List.Infix
import SpatialQuery.Proofs.Meaning.Written

/-!
What `LIKE` matches. The operators that look for a text write it into a pattern as it is. They find it where they
should exactly if the text has no character with a meaning in patterns (`textMatch_iff`).
-/

namespace SpatialQuery.Meaning

open Definition Sql Sql.Fragment

/-! ## Patterns -/

/-- The pattern matches the text: `%` matches any text, `_` any character, and a character behind a backslash only
itself. A backslash at the end matches nothing. -/
def likes : List Char → List Char → Bool
  | [], s => s.isEmpty
  | ['\\'], _ => false
  | '\\' :: c :: p, s =>
    match s with
    | [] => false
    | d :: s => d == c && likes p s
  | '%' :: p, s => s.tails.any (likes p)
  | '_' :: p, s =>
    match s with
    | [] => false
    | _ :: s => likes p s
  | c :: p, s =>
    match s with
    | [] => false
    | d :: s => d == c && likes p s

/-- Characters with a meaning in patterns. -/
def isWild (c : Char) : Bool :=
  c == '%' || c == '_' || c == '\\'

/-- A text that is a pattern for itself. -/
def Plain (v : List Char) : Prop :=
  ∀ c ∈ v, isWild c = false

instance : DecidablePred Plain := fun v => List.decidableBAll (isWild · = false) v

/-- A short text that the pattern matches, if it matches any. -/
def sample : List Char → List Char
  | [] => []
  | ['\\'] => []
  | '\\' :: c :: p => c :: sample p
  | '%' :: p => sample p
  | '_' :: p => 'x' :: sample p
  | c :: p => c :: sample p

section Patterns

variable {p v w s : List Char} {c : Char}

theorem isWild_eq_false_iff : isWild c = false ↔ c ≠ '%' ∧ c ≠ '_' ∧ c ≠ '\\' := by
  simp [isWild, and_assoc]

/-- Induction on a pattern, by what stands at its front. -/
@[elab_as_elim]
theorem pattern_induction {motive : List Char → Prop} (nil : motive []) (dangling : motive ['\\'])
    (escaped : ∀ c p, motive p → motive ('\\' :: c :: p)) (percent : ∀ p, motive p → motive ('%' :: p))
    (underscore : ∀ p, motive p → motive ('_' :: p))
    (plain : ∀ c p, isWild c = false → motive p → motive (c :: p)) (p : List Char) : motive p := by
  induction p using sample.induct with
  | case1 => exact nil
  | case2 => exact dangling
  | case3 c p ih => exact escaped c p ih
  | case4 p ih => exact percent p ih
  | case5 p ih => exact underscore p ih
  | case6 c p hdangling hescaped hpercent hunderscore ih =>
    have hbackslash : c ≠ '\\' := by
      intro hc
      cases p with
      | nil => exact hdangling hc rfl
      | cons d p => exact hescaped d p hc rfl
    exact plain c p (isWild_eq_false_iff.2 ⟨hpercent, hunderscore, hbackslash⟩) ih

theorem likes_nil_iff : likes [] s = true ↔ s = [] := by
  rw [likes, List.isEmpty_iff]

theorem likes_percent_iff : likes ('%' :: p) s = true ↔ ∃ t, t <:+ s ∧ likes p t = true := by
  rw [likes, List.any_eq_true]
  simp only [List.mem_tails]

theorem likes_underscore_iff : likes ('_' :: p) s = true ↔ ∃ d t, s = d :: t ∧ likes p t = true := by
  cases s <;> simp [likes]

theorem likes_escaped_iff : likes ('\\' :: c :: p) s = true ↔ ∃ t, s = c :: t ∧ likes p t = true := by
  cases s <;> simp [likes]

theorem likes_plain (h : isWild c = false) (p s : List Char) :
    likes (c :: p) s = likes ('\\' :: c :: p) s := by
  obtain ⟨hpercent, hunderscore, hbackslash⟩ := isWild_eq_false_iff.1 h
  cases s <;> simp [likes, hbackslash]

theorem sample_plain (h : isWild c = false) (p : List Char) : sample (c :: p) = c :: sample p := by
  obtain ⟨hpercent, hunderscore, hbackslash⟩ := isWild_eq_false_iff.1 h
  simp [sample, hbackslash]

theorem likes_plain_iff (h : isWild c = false) :
    likes (c :: p) s = true ↔ ∃ t, s = c :: t ∧ likes p t = true := by
  rw [likes_plain h, likes_escaped_iff]

theorem plain_nil : Plain [] := by
  simp [Plain]

theorem plain_cons_iff : Plain (c :: v) ↔ isWild c = false ∧ Plain v :=
  List.forall_mem_cons

/-- A plain text in a pattern matches itself only. -/
theorem likes_append_iff (h : Plain v) : likes (v ++ p) s = true ↔ ∃ t, s = v ++ t ∧ likes p t = true := by
  induction v generalizing s with
  | nil => simp
  | cons c v ih =>
    obtain ⟨hc, hv⟩ := plain_cons_iff.1 h
    rw [List.cons_append, likes_plain_iff hc]
    constructor
    · rintro ⟨t, rfl, ht⟩
      obtain ⟨u, rfl, hu⟩ := (ih hv).1 ht
      exact ⟨u, rfl, hu⟩
    · rintro ⟨u, rfl, hu⟩
      exact ⟨v ++ u, rfl, (ih hv).2 ⟨u, rfl, hu⟩⟩

theorem likes_self_iff (h : Plain v) : likes v s = true ↔ s = v := by
  have happend := likes_append_iff (p := []) (s := s) h
  simpa [likes_nil_iff] using happend

theorem likes_prefix_iff (h : Plain v) : likes (v ++ ['%']) s = true ↔ v <+: s := by
  rw [likes_append_iff h]
  constructor
  · rintro ⟨t, rfl, -⟩
    exact List.prefix_append v t
  · rintro ⟨t, rfl⟩
    exact ⟨t, rfl, likes_percent_iff.2 ⟨[], List.nil_suffix, rfl⟩⟩

theorem likes_sample (h : likes p s = true) : likes p (sample p) = true := by
  induction p using pattern_induction generalizing s with
  | nil => rfl
  | dangling => cases h
  | escaped c p ih =>
    obtain ⟨t, -, ht⟩ := likes_escaped_iff.1 h
    exact likes_escaped_iff.2 ⟨sample p, rfl, ih ht⟩
  | percent p ih =>
    obtain ⟨t, -, ht⟩ := likes_percent_iff.1 h
    exact likes_percent_iff.2 ⟨sample p, List.suffix_refl _, ih ht⟩
  | underscore p ih =>
    obtain ⟨d, t, -, ht⟩ := likes_underscore_iff.1 h
    exact likes_underscore_iff.2 ⟨'x', sample p, rfl, ih ht⟩
  | plain c p hc ih =>
    obtain ⟨t, -, ht⟩ := (likes_plain_iff hc).1 h
    exact (likes_plain_iff hc).2 ⟨sample p, sample_plain hc p, ih ht⟩

/-- What stands behind a text in a pattern: nothing, or any text. -/
def Rest (w : List Char) : Prop :=
  w = [] ∨ w = ['%']

theorem length_sample_le (hw : Rest w) : (sample (v ++ w)).length ≤ v.length := by
  induction v using pattern_induction with
  | nil | dangling => obtain rfl | rfl := hw <;> decide
  | escaped c p ih => simpa [sample] using Nat.le_succ_of_le ih
  | percent p ih => simpa [sample] using Nat.le_succ_of_le ih
  | underscore p ih => simpa [sample] using ih
  | plain c p hc ih =>
    rw [List.cons_append, sample_plain hc]
    exact Nat.succ_le_succ ih

/-- Only a plain text is its own sample. -/
theorem plain_of_sample (hw : Rest w) (h : sample (v ++ w) = v) : Plain v := by
  induction v using pattern_induction with
  | nil => exact plain_nil
  | dangling => obtain rfl | rfl := hw <;> cases h
  -- behind a backslash or a percent sign the sample is shorter than the text
  | escaped c p ih =>
    have hle := length_sample_le (v := p) hw
    have hlength := congrArg List.length h
    simp [sample] at hlength
    omega
  | percent p ih =>
    have hle := length_sample_le (v := p) hw
    have hlength := congrArg List.length h
    simp [sample] at hlength
    omega
  | underscore p ih =>
    simp [sample] at h
  | plain c p hc ih =>
    rw [List.cons_append, sample_plain hc] at h
    exact plain_cons_iff.2 ⟨hc, ih (List.cons.inj h).2⟩

end Patterns

/-! ## Operators that look for a text -/

/-- Where an operator looks for a text. -/
def place? : TextMatch → Option (List Char → List Char → Prop)
  | .startsWith => some (· <+: ·)
  | .endsWith => some (· <:+ ·)
  | .contains => some (· <:+: ·)
  | .like | .likeAnyCase | .notLike => none

/-- The pattern of an operator for a text. -/
def pattern : TextMatch → List Char → List Char
  | .startsWith, v => v ++ ['%']
  | .endsWith, v => '%' :: v
  | .contains, v => '%' :: (v ++ ['%'])
  | .like, v | .likeAnyCase, v | .notLike, v => v

section Places

variable {m : TextMatch} {place : List Char → List Char → Prop} {v : List Char}

theorem likes_pattern (hplace : place? m = some place) (h : Plain v) (s : List Char) :
    likes (pattern m v) s = true ↔ place v s := by
  cases m <;> cases hplace
  · exact likes_prefix_iff h
  · change likes ('%' :: v) s = true ↔ v <:+ s
    rw [likes_percent_iff]
    constructor
    · rintro ⟨t, hsuffix, ht⟩
      rwa [← (likes_self_iff h).1 ht]
    · intro hsuffix
      exact ⟨v, hsuffix, (likes_self_iff h).2 rfl⟩
  · change likes ('%' :: (v ++ ['%'])) s = true ↔ v <:+: s
    rw [likes_percent_iff, List.infix_iff_prefix_suffix]
    simp only [likes_prefix_iff h, and_comm]

/-- A pattern that matches anything matches its sample, and that is too short for a text that is not plain. -/
theorem plain_of_found {w : List Char} (hw : Rest w) (hsome : ∃ t, likes (v ++ w) t = true)
    (hfound : ∀ t, likes (v ++ w) t = true → v <:+: t) : Plain v := by
  obtain ⟨t, ht⟩ := hsome
  have hsample := (hfound _ (likes_sample ht)).eq_of_length_le (length_sample_le hw)
  exact plain_of_sample hw hsample.symm

theorem plain_of_likes_pattern (hplace : place? m = some place)
    (h : ∀ s, likes (pattern m v) s = true ↔ place v s) : Plain v := by
  cases m <;> cases hplace
  · exact plain_of_found (.inr rfl) ⟨v, (h v).2 List.prefix_rfl⟩ fun t ht => ((h t).1 ht).isInfix
  -- what matches behind the percent sign in front is found in itself too
  · have hsuffix : ∀ s, likes ('%' :: v) s = true ↔ v <:+ s := h
    obtain ⟨t, -, ht⟩ := likes_percent_iff.1 ((hsuffix v).2 List.suffix_rfl)
    refine plain_of_found (.inl rfl) ⟨t, by rwa [List.append_nil]⟩ fun t ht => ?_
    rw [List.append_nil] at ht
    exact ((hsuffix t).1 (likes_percent_iff.2 ⟨t, List.suffix_rfl, ht⟩)).isInfix
  · have hwithin : ∀ s, likes ('%' :: (v ++ ['%'])) s = true ↔ v <:+: s := h
    obtain ⟨t, -, ht⟩ := likes_percent_iff.1 ((hwithin v).2 List.infix_rfl)
    exact plain_of_found (.inr rfl) ⟨t, ht⟩ fun t ht =>
      (hwithin t).1 (likes_percent_iff.2 ⟨t, List.suffix_rfl, ht⟩)

end Places

/-! ## Conditions on texts -/

/-- The texts of the columns of a row, by their names. -/
abbrev Texts := List String → Option (List Char)

/-- The text of an expression. -/
def text? (row : Texts) (values : List Value) : Expr → Option (List Char)
  | .column names => row names
  | .param k =>
    match valueAt values k with
    | some (.text s) => some s.toList
    | _ => none
  | .text cs => some cs
  | .binary .concat a b => do return (← text? row values a) ++ (← text? row values b)
  | _ => none

/-- Whether a text is matched with a pattern. -/
def matched? (row : Texts) (values : List Value) : Expr → Option Bool
  | .binary (.like negated false) a p => do
    return likes (← text? row values p) (← text? row values a) != negated
  | _ => none

/-- Whether a predicate holds of a row, as its text is read. -/
def holds? (row : Texts) (p : Predicate) : Option Bool :=
  (readExpr (String.ofList (texts 1 p.fragments))).bind (matched? row (values p.fragments))

section Conditions

variable {scope : Scope} {c : Condition} {p : Predicate} {column : ColumnRef} {m : TextMatch} {v : String}
  {place : List Char → List Char → Prop} {row : Texts} {s : List Char}

theorem matched?_matchExpr (hplace : place? m = some place) {names : List String} (hrow : row names = some s) :
    matched? row [.text v] (matchExpr m (.column names) (.param 1)) = some (likes (pattern m v.toList) s) := by
  cases m <;> cases hplace <;> simp [matched?, matchExpr, text?, valueAt, anything, pattern, hrow]

theorem holds?_condition (hoperator : c.operator = .textMatch m) (hvalue : c.value = .text v)
    (hcolumn : ColumnRef.read c.column = .ok column) (h : conditionPredicate scope c = .ok p) :
    holds? row p = matched? row [.text v] (matchExpr m (.column (columnNames column)) (.param 1)) := by
  obtain ⟨t, ht, hpredicate⟩ := conditionPredicate_test h
  obtain ⟨column', hcolumn', -, hwritten⟩ := conditionPredicate_written h
  obtain rfl : column' = column := Except.ok.inj (hcolumn'.symm.trans hcolumn)
  have hbound : bound c.operator c.value = (.textMatch m, [.text v]) := by
    rw [hoperator, hvalue]
    rfl
  rw [conditionTest?, hcolumn] at ht
  obtain rfl := Option.some.inj ht
  have hvalues := values_predicate hpredicate
  rw [hbound] at hwritten hvalues
  rw [holds?, readExpr_predicate (isReadable_of_test? hpredicate), Option.bind_some, hvalues]
  cases hwritten
  have hindex : (Operand.column column').fragments.foldl next 1 = 1 := by
    rw [foldl_next]
    change 1 + (values column'.fragments).length = 1
    rw [values_column]
    rfl
  rw [predicateExpr, hindex]
  rfl

/-- The operator finds a text where it looks for it exactly if the text is plain. -/
theorem textMatch_iff (hplace : place? m = some place) (hoperator : c.operator = .textMatch m)
    (hvalue : c.value = .text v) (hcolumn : ColumnRef.read c.column = .ok column)
    (h : conditionPredicate scope c = .ok p) :
    (∀ row s, row (columnNames column) = some s → (holds? row p = some true ↔ place v.toList s)) ↔
      Plain v.toList := by
  have hholds : ∀ row s, row (columnNames column) = some s →
      holds? row p = some (likes (pattern m v.toList) s) := by
    intro row s hrow
    rw [holds?_condition hoperator hvalue hcolumn h, matched?_matchExpr hplace hrow]
  constructor
  · intro hall
    refine plain_of_likes_pattern hplace fun s => ?_
    rw [← hall (fun _ => some s) s rfl, hholds (fun _ => some s) s rfl, Option.some.injEq]
  · intro hplain row s hrow
    rw [hholds row s hrow, Option.some.injEq, likes_pattern hplace hplain]

end Conditions

/-! ## Names that begin with a text -/

def nameColumn : ColumnRef :=
  ⟨[], some ⟨"name", by decide⟩⟩

/-- The condition that the name begins with a text. -/
def beginning (v : String) : Condition :=
  ⟨"name", .textMatch .startsWith, .text v, .and⟩

def beginningPredicate (v : String) : Predicate :=
  .textMatch .startsWith (.column nameColumn) (.param (.text v))

theorem read_nameColumn : ColumnRef.read "name" = .ok nameColumn := by
  with_unfolding_all rfl

theorem conditionPredicate_beginning (v : String) :
    conditionPredicate mixedScope (beginning v) = .ok (beginningPredicate v) := by
  have hcolumn : columnIn mixedScope "name" = .ok nameColumn := by
    with_unfolding_all rfl
  unfold conditionPredicate beginning
  rw [hcolumn]
  rfl

theorem textMatch_iff_new : conditionPredicate mixedScope (beginning "New") = .ok (beginningPredicate "New") ∧
    ∀ row s, row ["name"] = some s →
      (holds? row (beginningPredicate "New") = some true ↔ "New".toList <+: s) := by
  have hpredicate := conditionPredicate_beginning "New"
  have hplain : Plain "New".toList := by decide
  have hiff := textMatch_iff (m := .startsWith) (c := beginning "New") rfl rfl rfl read_nameColumn hpredicate
  exact ⟨hpredicate, hiff.2 hplain⟩

/-- A percent sign that is looked for is taken for any text. -/
theorem textMatch_percent : conditionPredicate mixedScope (beginning "50%") = .ok (beginningPredicate "50%") ∧
    holds? (fun _ => some "50 apples".toList) (beginningPredicate "50%") = some true ∧
    ¬ "50%".toList <+: "50 apples".toList := by
  have hpredicate := conditionPredicate_beginning "50%"
  refine ⟨hpredicate, ?_, by decide⟩
  have hplace : place? .startsWith = some (· <+: ·) := rfl
  rw [holds?_condition (m := .startsWith) (c := beginning "50%") rfl rfl read_nameColumn hpredicate,
    matched?_matchExpr hplace rfl]
  rfl

end SpatialQuery.Meaning
