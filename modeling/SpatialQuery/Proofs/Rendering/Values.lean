import SpatialQuery.Proofs.Rendering.Expressions

/-!
The values in fragments. Placeholders are numbered by the values in front of them (`foldl_next`), and what
stands between operands has no values.
-/

namespace SpatialQuery.Sql

open Fragment

theorem length_values_cons (f : Fragment) (fs : List Fragment) (index : Nat) :
    index + (values (f :: fs)).length = f.next index + (values fs).length := by
  cases f with
  | param v =>
    change index + ((values fs).length + 1) = index + 1 + (values fs).length
    omega
  | _ => rfl

/-- Every value takes the number of one placeholder. -/
theorem foldl_next (fs : List Fragment) (index : Nat) :
    fs.foldl next index = index + (values fs).length := by
  induction fs generalizing index with
  | nil => rfl
  | cons f fs ih => rw [List.foldl_cons, ih, ← length_values_cons]

theorem values_append (fs gs : List Fragment) : values (fs ++ gs) = values fs ++ values gs :=
  List.filterMap_append

theorem values_names (qualifier : List Identifier) :
    values (qualifier.flatMap fun j => [name j, symbol '.']) = [] := by
  induction qualifier with
  | nil => rfl
  | cons j qualifier ih => exact ih

theorem values_column (c : ColumnRef) : values c.fragments = [] := by
  rw [ColumnRef.fragments, values_append, values_names]
  cases c.column <;> rfl

theorem values_words (ws : List String) : values (words ws) = [] := by
  induction ws with
  | nil => rfl
  | cons w ws ih =>
    cases ws with
    | nil => rfl
    | cons v ws => exact ih

theorem values_joined (fs : List Fragment) (ws : List String) (gs : List Fragment) :
    values (Predicate.joined fs ws gs) = values fs ++ values gs := by
  rw [Predicate.joined, values_append, values_append]
  change values fs ++ values (words ws) ++ values gs = _
  rw [values_words, List.append_nil]

theorem values_textMatch (m : TextMatch) (fs gs : List Fragment) :
    values (Predicate.textMatchFragments m fs gs) = values fs ++ values gs := by
  have hconcat : values Predicate.concatenation = [] := rfl
  have hany : values [anyText] = [] := rfl
  have hfront : values (anyText :: Predicate.concatenation ++ gs) = values gs := rfl
  cases m <;> simp only [Predicate.textMatchFragments, values_joined, values_append, hfront, hconcat, hany,
    List.append_nil]

theorem values_compare (c : Comparison) (fs gs : List Fragment) :
    values (fs ++ blank :: c.sign.map symbol ++ blank :: gs) = values fs ++ values gs := by
  rw [values_append, values_append, List.append_assoc]
  cases c <;> rfl

theorem values_list (os : List Operand) :
    values (Predicate.listFragments os) = values (commaList (os.map (·.fragments))) := by
  rw [Predicate.listFragments, values_append]
  exact List.append_nil _

theorem values_call (function : String) (os : List Operand) :
    values (call function (os.map (·.fragments))) = values (commaList (os.map (·.fragments))) := by
  rw [call, values_append]
  exact List.append_nil _

theorem values_commaList_cons (o : Operand) (os : List Operand) :
    values (commaList ((o :: os).map (·.fragments))) =
      values o.fragments ++ values (commaList (os.map (·.fragments))) := by
  cases os with
  | nil =>
    rw [List.map_singleton, commaList_singleton]
    exact (List.append_nil _).symm
  | cons o' os =>
    rw [List.map_cons, List.map_cons, commaList_cons_cons, values_append]
    rfl

theorem values_group (p q : Predicate) (ws : List String) :
    values (symbol '(' :: Predicate.joined p.fragments ws q.fragments ++ [symbol ')']) =
      values p.fragments ++ values q.fragments := by
  rw [values_append, ← values_joined p.fragments ws q.fragments]
  exact List.append_nil _

end SpatialQuery.Sql
