import SpatialQuery.Proofs.Rendering.Checks

/-!
Where the names and numbers of a statement come from. Names stand in the references of its operands, items and
sources, and there is no number in front of the limit (`Select.supplied_body`).
-/

namespace SpatialQuery

/-- The names in a reference. -/
def ColumnRef.names (c : ColumnRef) : List Identifier :=
  c.qualifier ++ c.column.toList

namespace Sql

open Token Lexical Fragment

namespace Operand

def names : Operand → List Identifier
  | column c => c.names
  | param _ => []
  | geometry _ _ => []

end Operand

/-- The operands of a predicate, from left to right. -/
def Predicate.operands : Predicate → List Operand
  | compare _ a b => [a, b]
  | isNull a => [a]
  | isNotNull a => [a]
  | member a items => a :: items
  | notMember a items => a :: items
  | between a low high => [a, low, high]
  | notBetween a low high => [a, low, high]
  | textMatch _ a b => [a, b]
  | spatial _ a b => [a, b]
  | withinDistance a b distance => [a, b, distance]
  | and p q => p.operands ++ q.operands
  | or p q => p.operands ++ q.operands

def Source.names (s : Source) : List Identifier :=
  s.schema :: s.table :: s.label.toList

def Item.names (i : Item) : List Identifier :=
  i.column.names ++ i.label.toList

def Predicate.NamedFrom (names : List Identifier) (p : Predicate) : Prop :=
  ∀ o ∈ p.operands, o.names ⊆ names

theorem Predicate.NamedFrom.mono {names names' : List Identifier} {p : Predicate} (h : p.NamedFrom names)
    (hsub : names ⊆ names') : p.NamedFrom names' :=
  fun o ho => List.Subset.trans (h o ho) hsub

/-- The statement has no other names than these. -/
structure Select.NamedFrom (names : List Identifier) (s : Select) : Prop where
  items : ∀ i ∈ s.items, i.names ⊆ names
  source : s.source.names ⊆ names
  joins : ∀ j ∈ s.joins, j.source.names ⊆ names ∧ ∀ p ∈ j.condition, p.NamedFrom names
  condition : ∀ p ∈ s.condition, p.NamedFrom names
  groupBy : ∀ c ∈ s.groupBy, c.names ⊆ names
  orderBy : ∀ o ∈ s.orderBy, o.column.names ⊆ names

namespace Fragment

/-- The fragment is no number, and if it is a name, it is one of these. -/
def Supplied (names : List Identifier) : Fragment → Prop
  | name i => i ∈ names
  | number _ => False
  | _ => True

end Fragment

/-- No number stands in the fragments, and no other name than these. -/
def AllSupplied (names : List Identifier) (fs : List Fragment) : Prop :=
  ∀ f ∈ fs, f.Supplied names

section AllSupplied

variable {names : List Identifier} {fs gs : List Fragment}

theorem allSupplied_nil : AllSupplied names [] :=
  List.forall_mem_nil _

theorem allSupplied_cons {f : Fragment} (hf : f.Supplied names) (h : AllSupplied names fs) :
    AllSupplied names (f :: fs) :=
  List.forall_mem_cons.2 ⟨hf, h⟩

theorem allSupplied_append (hf : AllSupplied names fs) (hg : AllSupplied names gs) :
    AllSupplied names (fs ++ gs) :=
  List.forall_mem_append.2 ⟨hf, hg⟩

theorem allSupplied_words (ws : List String) : AllSupplied names (words ws) := by
  induction ws with
  | nil => exact allSupplied_nil
  | cons w ws ih =>
    cases ws with
    | nil => exact allSupplied_cons trivial allSupplied_nil
    | cons v ws => exact allSupplied_cons trivial (allSupplied_cons trivial ih)

theorem allSupplied_symbols (cs : List Char) : AllSupplied names (cs.map symbol) :=
  List.forall_mem_map.2 fun _ _ => trivial

theorem allSupplied_commaList {items : List (List Fragment)} (h : ∀ a ∈ items, AllSupplied names a) :
    AllSupplied names (commaList items) := by
  induction items with
  | nil => exact allSupplied_nil
  | cons a items ih =>
    rw [List.forall_mem_cons] at h
    cases items with
    | nil =>
      rw [commaList_singleton]
      exact h.1
    | cons b items =>
      rw [commaList_cons_cons]
      exact allSupplied_append h.1 (allSupplied_cons trivial (allSupplied_cons trivial (ih h.2)))

theorem allSupplied_group (h : AllSupplied names fs) :
    AllSupplied names (symbol '(' :: fs ++ [symbol ')']) :=
  allSupplied_append (allSupplied_cons trivial h) (allSupplied_cons trivial allSupplied_nil)

theorem allSupplied_call (function : String) {arguments : List (List Fragment)}
    (h : ∀ a ∈ arguments, AllSupplied names a) : AllSupplied names (call function arguments) :=
  allSupplied_cons trivial (allSupplied_group (allSupplied_commaList h))

theorem allSupplied_labelled (h : AllSupplied names fs) {label : Option Identifier}
    (hlabel : label.toList ⊆ names) : AllSupplied names (labelled fs label) := by
  cases label with
  | none => exact h
  | some i =>
    refine allSupplied_append h (allSupplied_cons trivial (allSupplied_cons trivial
      (allSupplied_cons trivial (allSupplied_cons ?_ allSupplied_nil))))
    exact hlabel (List.mem_singleton_self i)

theorem allSupplied_joined (hf : AllSupplied names fs) (ws : List String) (hg : AllSupplied names gs) :
    AllSupplied names (Predicate.joined fs ws gs) :=
  allSupplied_append (allSupplied_append hf (allSupplied_cons trivial (allSupplied_words ws)))
    (allSupplied_cons trivial hg)

theorem allSupplied_textMatch (m : TextMatch) (hf : AllSupplied names fs) (hg : AllSupplied names gs) :
    AllSupplied names (Predicate.textMatchFragments m fs gs) := by
  have hconcat : AllSupplied names Predicate.concatenation := allSupplied_cons trivial
    (allSupplied_cons trivial (allSupplied_cons trivial (allSupplied_cons trivial allSupplied_nil)))
  have hany : AllSupplied names [anyText] := allSupplied_cons trivial allSupplied_nil
  have hfront := allSupplied_append (allSupplied_append hany hconcat) hg
  cases m with
  | like | likeAnyCase | notLike => exact allSupplied_joined hf _ hg
  | startsWith => exact allSupplied_joined hf _ (allSupplied_append (allSupplied_append hg hconcat) hany)
  | endsWith => exact allSupplied_joined hf _ hfront
  | contains =>
    exact allSupplied_joined hf _ (allSupplied_append (allSupplied_append hfront hconcat) hany)

theorem allSupplied_condition (word : String) {condition : Option Predicate}
    (h : ∀ p ∈ condition, AllSupplied names p.fragments) :
    AllSupplied names (conditionClause word condition) := by
  cases condition with
  | none => exact allSupplied_nil
  | some p =>
    exact allSupplied_cons trivial (allSupplied_cons trivial (allSupplied_cons trivial (h p rfl)))

theorem allSupplied_list (ws : List String) {items : List (List Fragment)}
    (h : ∀ a ∈ items, AllSupplied names a) : AllSupplied names (Select.listClause ws items) := by
  rw [Select.listClause]
  split
  · exact allSupplied_nil
  · exact allSupplied_append (allSupplied_cons trivial (allSupplied_words ws))
      (allSupplied_cons trivial (allSupplied_commaList h))

/-! ## The parts of a statement -/

theorem supplied_column {c : ColumnRef} (h : c.names ⊆ names) : AllSupplied names c.fragments := by
  obtain ⟨qualifier, column⟩ := c
  obtain ⟨hqualifier, hcolumn⟩ := List.append_subset.1 h
  refine allSupplied_append (fun f hf => ?_) ?_
  · obtain ⟨i, hi, hf⟩ := List.mem_flatMap.1 hf
    rcases List.mem_pair.1 hf with rfl | rfl
    · exact hqualifier hi
    · trivial
  · cases column with
    | none => exact allSupplied_cons trivial allSupplied_nil
    | some i => exact allSupplied_cons (hcolumn (List.mem_singleton_self i)) allSupplied_nil

theorem supplied_columns {α : Type} {f : α → ColumnRef} {as : List α} (h : ∀ a ∈ as, (f a).names ⊆ names) :
    ∀ a ∈ as.map fun a => (f a).fragments, AllSupplied names a :=
  List.forall_mem_map.2 fun a ha => supplied_column (h a ha)

theorem supplied_operand {o : Operand} (h : o.names ⊆ names) : AllSupplied names o.fragments := by
  cases o with
  | column c => exact supplied_column h
  | param v => exact allSupplied_cons trivial allSupplied_nil
  | geometry wkt srid =>
    refine allSupplied_call "ST_GeomFromText" fun a ha => ?_
    rcases List.mem_pair.1 ha with rfl | rfl <;> exact allSupplied_cons trivial allSupplied_nil

theorem supplied_operands {os : List Operand} (h : ∀ o ∈ os, o.names ⊆ names) :
    ∀ a ∈ os.map (·.fragments), AllSupplied names a :=
  List.forall_mem_map.2 fun o ho => supplied_operand (h o ho)

theorem supplied_predicate {p : Predicate} (h : p.NamedFrom names) : AllSupplied names p.fragments := by
  have hpart : ∀ o ∈ p.operands, AllSupplied names o.fragments := fun o ho => supplied_operand (h o ho)
  induction p with
  | compare c a b =>
    obtain ⟨ha, hb⟩ := List.forall_mem_cons.1 hpart
    exact allSupplied_append (allSupplied_append ha (allSupplied_cons trivial (allSupplied_symbols _)))
      (allSupplied_cons trivial (hb b List.mem_cons_self))
  | isNull a | isNotNull a =>
    exact allSupplied_append (hpart a List.mem_cons_self) (allSupplied_cons trivial (allSupplied_words _))
  | member a items | notMember a items =>
    obtain ⟨-, hitems⟩ := List.forall_mem_cons.1 h
    exact allSupplied_joined (hpart a List.mem_cons_self) _
      (allSupplied_group (allSupplied_commaList (supplied_operands hitems)))
  | between a low high | notBetween a low high =>
    obtain ⟨ha, hrange⟩ := List.forall_mem_cons.1 hpart
    obtain ⟨hlow, hhigh⟩ := List.forall_mem_cons.1 hrange
    exact allSupplied_joined ha _ (allSupplied_joined hlow _ (hhigh high List.mem_cons_self))
  | textMatch m a b =>
    obtain ⟨ha, hb⟩ := List.forall_mem_cons.1 hpart
    exact allSupplied_textMatch m ha (hb b List.mem_cons_self)
  | spatial r a b =>
    have hoperands : ∀ o ∈ [a, b], o.names ⊆ names := h
    exact allSupplied_call _ (supplied_operands hoperands)
  | withinDistance a b distance =>
    have hoperands : ∀ o ∈ [a, b, distance], o.names ⊆ names := h
    exact allSupplied_call _ (supplied_operands hoperands)
  | and p q ihp ihq | or p q ihp ihq =>
    obtain ⟨hp, hq⟩ := List.forall_mem_append.1 h
    have hpartp : ∀ o ∈ p.operands, AllSupplied names o.fragments := fun o ho => supplied_operand (hp o ho)
    have hpartq : ∀ o ∈ q.operands, AllSupplied names o.fragments := fun o ho => supplied_operand (hq o ho)
    exact allSupplied_group (allSupplied_joined (ihp hp hpartp) _ (ihq hq hpartq))

theorem supplied_source {s : Source} (h : s.names ⊆ names) : AllSupplied names s.fragments := by
  obtain ⟨hschema, hrest⟩ := List.cons_subset.1 h
  obtain ⟨htable, hlabel⟩ := List.cons_subset.1 hrest
  have hname : AllSupplied names [name s.schema, symbol '.', name s.table] :=
    allSupplied_cons hschema (allSupplied_cons trivial (allSupplied_cons htable allSupplied_nil))
  exact allSupplied_labelled hname hlabel

theorem supplied_item {i : Item} (h : i.names ⊆ names) : AllSupplied names i.fragments := by
  obtain ⟨hcolumn, hlabel⟩ := List.append_subset.1 h
  have hfragments := supplied_column hcolumn
  refine allSupplied_labelled ?_ hlabel
  cases i.aggregate with
  | none => exact hfragments
  | some a => exact allSupplied_call _ (List.forall_mem_singleton.2 hfragments)

theorem supplied_order {o : Order} (h : o.column.names ⊆ names) : AllSupplied names o.fragments := by
  refine allSupplied_append (allSupplied_append (supplied_column h)
    (allSupplied_cons trivial (allSupplied_cons trivial allSupplied_nil))) ?_
  cases o.nulls with
  | default => exact allSupplied_nil
  | first | last => exact allSupplied_cons trivial (allSupplied_words _)

theorem Select.supplied_list {s : Select} (h : s.NamedFrom names) : AllSupplied names s.list := by
  refine allSupplied_append ?_ ?_
  · cases s.distinct with
    | false => exact allSupplied_nil
    | true => exact allSupplied_cons trivial (allSupplied_cons trivial allSupplied_nil)
  · split
    · exact allSupplied_cons trivial allSupplied_nil
    · exact allSupplied_commaList (List.forall_mem_map.2 fun i hi => supplied_item (h.items i hi))

theorem Select.supplied_joins {s : Select} (h : s.NamedFrom names) : AllSupplied names s.joinFragments := by
  intro f hf
  obtain ⟨j, hj, hf⟩ := List.mem_flatMap.1 hf
  obtain ⟨hsource, hcondition⟩ := h.joins j hj
  have hjoin : AllSupplied names (blank :: j.fragments) := by
    rw [Join.fragments_eq]
    exact allSupplied_cons trivial (allSupplied_append (allSupplied_append (allSupplied_words _)
      (allSupplied_cons trivial (supplied_source hsource)))
      (allSupplied_condition "ON" fun p hp => supplied_predicate (hcondition p hp)))
  exact hjoin f hf

/-- Up to the limit, a statement has no numbers, and no names but its own. -/
theorem Select.supplied_body {s : Select} (h : s.NamedFrom names) : AllSupplied names s.body := by
  have hopening : AllSupplied names s.opening :=
    allSupplied_cons trivial (allSupplied_cons trivial (allSupplied_append (supplied_list h)
      (allSupplied_cons trivial (allSupplied_cons trivial (allSupplied_cons trivial
        (supplied_source h.source))))))
  have hwhere := allSupplied_condition "WHERE" fun p hp => supplied_predicate (h.condition p hp)
  have hgroup := allSupplied_list ["GROUP", "BY"] (supplied_columns h.groupBy)
  have horder := allSupplied_list ["ORDER", "BY"]
    (List.forall_mem_map.2 fun o ho => supplied_order (h.orderBy o ho))
  exact allSupplied_append hopening (allSupplied_append (supplied_joins h)
    (allSupplied_append hwhere (allSupplied_append hgroup horder)))

end AllSupplied

end Sql

end SpatialQuery
