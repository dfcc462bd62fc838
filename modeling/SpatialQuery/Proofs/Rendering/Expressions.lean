import SpatialQuery.Proofs.Rendering.Fragments
import SpatialQuery.Sql.Select

/-!
The fragments of expressions. An expression can be told apart from whatever may follow it, and its
parentheses match (`Expression`). Lists, calls and parenthesised parts make expressions of expressions,
so every predicate is one (`expression_predicate`).
-/

namespace SpatialQuery.Sql

open Fragment

/-! ## Fragments in front of others -/

/-- What may follow an expression: nothing, a symbol that closes or separates, or a blank and more. -/
def follows : List Fragment → Bool
  | [] => true
  | symbol c :: _ => c != '(' && c != '.'
  | blank :: blank :: _ => false
  | blank :: symbol c :: _ => c != '('
  | blank :: _ :: _ => true
  | _ => false

section Apart

variable {fs : List Fragment}

theorem apart_nil : Apart [] :=
  ⟨.nil, .nil⟩

theorem apart_blank (h : Apart fs) : Apart (blank :: fs) :=
  ⟨List.isChain_cons.2 ⟨fun _ _ => rfl, h.precede⟩, h.uncalled⟩

theorem apart_symbol {c : Char} (hc : c ≠ '.') (h : Apart fs) : Apart (symbol c :: fs) := by
  refine ⟨List.isChain_cons.2 ⟨fun g _ => ?_, h.precede⟩, List.isChain_cons.2 ⟨fun _ _ => rfl, h.uncalled⟩⟩
  cases g <;> simp [mayPrecede, hc]

theorem apart_keyword (word : String) (hb : ∀ g ∈ fs.head?, g = blank ∨ ∃ c, g = symbol c)
    (h : Apart fs) : Apart (keyword word :: fs) := by
  refine ⟨List.isChain_cons.2 ⟨fun g hg => ?_, h.precede⟩,
    List.isChain_cons.2 ⟨fun _ _ => rfl, h.uncalled⟩⟩
  rcases hb g hg with rfl | ⟨c, rfl⟩ <;> rfl

theorem follows_cases (h : follows fs = true) : fs = [] ∨
    (∃ c gs, fs = symbol c :: gs ∧ c ≠ '(' ∧ c ≠ '.') ∨
      ∃ g gs, fs = blank :: g :: gs ∧ g.isSolid = true ∧ g ≠ symbol '(' := by
  fun_cases follows fs with
  | case1 => exact .inl rfl
  | case2 c gs => exact .inr (.inl ⟨c, gs, rfl, by simpa [follows] using h⟩)
  | case3 => cases h
  | case4 c gs => exact .inr (.inr ⟨symbol c, gs, rfl, rfl, by simpa [follows] using h⟩)
  | case5 g gs hb hs =>
    refine .inr (.inr ⟨g, gs, rfl, ?_, hs '('⟩)
    cases g <;> first | rfl | exact absurd rfl hb
  | case6 gs h1 h2 h3 h4 h5 => simp [follows] at h

/-- A fragment that is no symbol, in front of what may follow an expression. -/
theorem apart_solid {f : Fragment} (hf : ∀ c, f ≠ symbol c) (hb : f.isSolid = true) (h : Apart fs)
    (hfollows : follows fs = true) : Apart (f :: fs) := by
  have hfilter : (f :: fs).filter isSolid = f :: fs.filter isSolid := List.filter_cons_of_pos hb
  refine ⟨List.isChain_cons.2 ⟨fun g hg => ?_, h.precede⟩, ?_⟩
  · rcases follows_cases hfollows with rfl | ⟨c, gs, rfl, -, hc⟩ | ⟨g', gs, rfl, -, -⟩
    · cases hg
    · obtain rfl := Option.some.inj hg
      cases f <;> simp [mayPrecede, hc]
    · obtain rfl := Option.some.inj hg
      cases f <;> rfl
  · rw [hfilter]
    refine List.isChain_cons.2 ⟨fun g hg => ?_, h.uncalled⟩
    -- the next solid fragment is the next one, or stands behind one blank
    rcases follows_cases hfollows with rfl | ⟨c, gs, rfl, hc, -⟩ | ⟨g', gs, rfl, hsolid, hg'⟩
    · cases hg
    · obtain rfl := Option.some.inj hg
      cases f <;> simp [isNoCall, hc]
    · have hhead : (blank :: g' :: gs).filter isSolid = g' :: gs.filter isSolid := by
        rw [List.filter_cons_of_neg (by simp [isSolid]), List.filter_cons_of_pos hsolid]
      rw [hhead] at hg
      obtain rfl := Option.some.inj hg
      cases f <;> cases g' <;> simp_all [isNoCall]

/-- A name with a dot behind it, in front of another name or an asterisk. -/
theorem apart_qualifier (i : Identifier) (h : Apart fs) (hfs : ∃ g ∈ fs.head?, g = symbol '*' ∨ ∃ j, g = name j) :
    Apart (name i :: symbol '.' :: fs) := by
  obtain ⟨g, hg, hkind⟩ := hfs
  refine ⟨List.isChain_cons_cons.2 ⟨rfl, List.isChain_cons.2 ⟨fun g' hg' => ?_, h.precede⟩⟩,
    List.isChain_cons_cons.2 ⟨rfl, List.isChain_cons.2 ⟨fun _ _ => rfl, h.uncalled⟩⟩⟩
  obtain rfl := Option.some.inj (hg.symm.trans hg')
  rcases hkind with rfl | ⟨j, rfl⟩ <;> rfl

theorem words_cons_cons (w v : String) (ws : List String) :
    words (w :: v :: ws) = keyword w :: blank :: words (v :: ws) := rfl

/-- Keywords with a blank behind them. -/
theorem apart_words (ws : List String) (h : Apart fs) : Apart (words ws ++ blank :: fs) := by
  induction ws with
  | nil => exact apart_blank h
  | cons w ws ih =>
    cases ws with
    | nil => exact apart_keyword w (fun g hg => .inl (Option.some.inj hg).symm) (apart_blank h)
    | cons v ws =>
      rw [words_cons_cons]
      exact apart_keyword w (fun g hg => .inl (Option.some.inj hg).symm) (apart_blank ih)

end Apart

/-! ## Parentheses -/

def Fragment.isParen : Fragment → Bool
  | symbol c => c == '(' || c == ')'
  | _ => false

/-- The parentheses of the fragments match. -/
inductive Grouped : List Fragment → Prop
  | nil : Grouped []
  | cons {f : Fragment} {fs : List Fragment} : f.isParen = false → Grouped fs → Grouped (f :: fs)
  | group {fs gs : List Fragment} :
      Grouped fs → Grouped gs → Grouped (symbol '(' :: (fs ++ symbol ')' :: gs))

theorem Grouped.append {fs gs : List Fragment} (hf : Grouped fs) (hg : Grouped gs) : Grouped (fs ++ gs) := by
  induction hf with
  | nil => exact hg
  | cons hp _ ih => exact .cons hp ih
  | group hin _ _ ih =>
    rw [List.cons_append, List.append_assoc]
    exact .group hin ih

theorem grouped_flat {fs : List Fragment} (h : ∀ f ∈ fs, f.isParen = false) : Grouped fs := by
  induction fs with
  | nil => exact .nil
  | cons f fs ih => exact .cons (h f (by simp)) (ih fun g hg => h g (by simp [hg]))

/-! ## Expressions -/

/-- The fragments of an expression, with keywords among `ws`. -/
structure Expression (ws : List String) (fs : List Fragment) : Prop where
  known : ∀ f ∈ fs, f.isKnown ws = true
  apart : ∀ rest, Apart rest → follows rest = true → Apart (fs ++ rest)
  grouped : Grouped fs
  ended : ∃ f ∈ fs.getLast?, f.isSolid = true

theorem ended_append {gs : List Fragment} (fs : List Fragment) (h : ∃ f ∈ gs.getLast?, f.isSolid = true) :
    ∃ f ∈ (fs ++ gs).getLast?, f.isSolid = true := by
  obtain ⟨f, hf, hs⟩ := h
  exact ⟨f, List.mem_getLast?_append_of_mem_getLast? hf, hs⟩

section Expression

variable {ws : List String}

theorem Expression.mono {vs : List String} {fs : List Fragment} (h : Expression ws fs) (hsub : ws ⊆ vs) :
    Expression vs fs where
  known f hf := by
    have hk := h.known f hf
    cases f with
    | keyword w =>
      rw [isKnown, List.contains_iff_mem] at hk ⊢
      exact hsub hk
    | _ => exact hk
  apart := h.apart
  grouped := h.grouped
  ended := h.ended

/-- A fragment that is no symbol is an expression. -/
theorem expression_solid {f : Fragment} (hk : f.isKnown ws = true) (hf : ∀ c, f ≠ symbol c)
    (hb : f.isSolid = true) : Expression ws [f] where
  known := List.forall_mem_singleton.2 hk
  apart _ h hrest := apart_solid hf hb h hrest
  grouped := .cons (by cases f <;> first | rfl | exact absurd rfl (hf _)) .nil
  ended := ⟨f, rfl, hb⟩

/-- Two expressions with a blank between them, if the second one begins with no symbol. -/
theorem Expression.append_blank {fs gs : List Fragment} (hf : Expression ws fs) (hg : Expression ws gs)
    (hseam : ∀ rest, follows (blank :: (gs ++ rest)) = true) : Expression ws (fs ++ blank :: gs) where
  known := List.forall_mem_append.2 ⟨hf.known, List.forall_mem_cons.2 ⟨rfl, hg.known⟩⟩
  apart rest h hrest := by
    rw [List.append_assoc, List.cons_append]
    exact hf.apart _ (apart_blank (hg.apart rest h hrest)) (hseam rest)
  grouped := hf.grouped.append (.cons rfl hg.grouped)
  ended := ended_append fs (ended_append [blank] hg.ended)

theorem expression_keyword {w : String} (hw : w ∈ ws) : Expression ws [keyword w] :=
  expression_solid (by simpa [isKnown] using hw) nofun rfl

theorem follows_words (v : String) (vs : List String) (rest : List Fragment) :
    follows (blank :: (words (v :: vs) ++ rest)) = true := by
  cases vs <;> rfl

theorem expression_words {v : String} {vs : List String} (h : v :: vs ⊆ ws) :
    Expression ws (words (v :: vs)) := by
  induction vs generalizing v with
  | nil => exact expression_keyword (h (by simp))
  | cons w vs ih =>
    rw [List.cons_subset] at h
    exact (expression_keyword h.1).append_blank (ih h.2) (follows_words w vs)

/-- Behind keywords may also stand what begins with a parenthesis. -/
theorem expression_prefixed {b : List Fragment} {v : String} {vs : List String} (hvs : v :: vs ⊆ ws)
    (hb : Expression ws b) : Expression ws (words (v :: vs) ++ blank :: b) where
  known := List.forall_mem_append.2 ⟨(expression_words hvs).known, List.forall_mem_cons.2 ⟨rfl, hb.known⟩⟩
  apart rest h hrest := by
    rw [List.append_assoc, List.cons_append]
    exact apart_words (v :: vs) (hb.apart rest h hrest)
  grouped := (expression_words hvs).grouped.append (.cons rfl hb.grouped)
  ended := ended_append _ (ended_append [blank] hb.ended)

theorem expression_introduced {b : List Fragment} {w : String} (hw : w ∈ ws) (hb : Expression ws b) :
    Expression ws (keyword w :: blank :: b) :=
  expression_prefixed (List.cons_subset.2 ⟨hw, List.nil_subset ws⟩) hb

theorem expression_joined {a b : List Fragment} {v : String} {vs : List String} (hvs : v :: vs ⊆ ws)
    (ha : Expression ws a) (hb : Expression ws b) : Expression ws (Predicate.joined a (v :: vs) b) := by
  have h := ha.append_blank (expression_prefixed hvs hb) fun rest => by
    rw [List.append_assoc]
    exact follows_words v vs _
  rwa [← List.cons_append, ← List.append_assoc] at h

theorem commaList_cons_cons (a b : List Fragment) (items : List (List Fragment)) :
    commaList (a :: b :: items) = a ++ symbol ',' :: blank :: commaList (b :: items) := by
  simp [commaList, List.intercalate]

theorem commaList_singleton (a : List Fragment) : commaList [a] = a := by
  simp [commaList, List.intercalate]

theorem expression_commaList {a : List Fragment} {items : List (List Fragment)}
    (h : ∀ b ∈ a :: items, Expression ws b) : Expression ws (commaList (a :: items)) := by
  induction items generalizing a with
  | nil =>
    rw [commaList_singleton]
    exact h a (by simp)
  | cons b items ih =>
    rw [List.forall_mem_cons] at h
    have hrest := ih h.2
    rw [commaList_cons_cons]
    refine ⟨List.forall_mem_append.2 ⟨h.1.known, List.forall_mem_cons.2 ⟨rfl, List.forall_mem_cons.2
      ⟨rfl, hrest.known⟩⟩⟩, fun rest hr hfollows => ?_,
      h.1.grouped.append (.cons rfl (.cons rfl hrest.grouped)),
      ended_append a (ended_append [symbol ',', blank] hrest.ended)⟩
    rw [List.append_assoc]
    exact h.1.apart _ (apart_symbol (by decide) (apart_blank (hrest.apart rest hr hfollows))) rfl

/-- Parentheses around an expression. -/
theorem expression_group {fs : List Fragment} (h : Expression ws fs) :
    Expression ws (symbol '(' :: fs ++ [symbol ')']) where
  known := List.forall_mem_append.2 ⟨List.forall_mem_cons.2 ⟨rfl, h.known⟩, List.forall_mem_singleton.2 rfl⟩
  apart rest hr _ := by
    rw [List.append_assoc, List.cons_append]
    exact apart_symbol (by decide) (h.apart _ (apart_symbol (by decide) hr) rfl)
  grouped := .group h.grouped .nil
  ended := ended_append _ ⟨_, rfl, rfl⟩

/-- A list in parentheses may be empty. -/
theorem expression_tuple {items : List (List Fragment)} (h : ∀ a ∈ items, Expression ws a) :
    Expression ws (symbol '(' :: commaList items ++ [symbol ')']) := by
  cases items with
  | nil =>
    refine ⟨?_, fun rest hr _ => apart_symbol (by decide) (apart_symbol (by decide) hr), .group .nil .nil,
      ⟨_, rfl, rfl⟩⟩
    intro f hf
    rcases List.mem_pair.1 hf with rfl | rfl <;> rfl
  | cons a items => exact expression_group (expression_commaList h)

theorem forall_expression_map {α : Type} {f : α → List Fragment} (h : ∀ x, Expression ws (f x))
    (xs : List α) : ∀ a ∈ xs.map f, Expression ws a :=
  List.forall_mem_map.2 fun x _ => h x

theorem expression_call {function : String} {arguments : List (List Fragment)} (hf : function ∈ ws)
    (h : ∀ a ∈ arguments, Expression ws a) : Expression ws (call function arguments) := by
  have htuple := expression_tuple h
  refine ⟨List.forall_mem_cons.2 ⟨by simpa [isKnown] using hf, htuple.known⟩, fun rest hr hfollows => ?_,
    .cons rfl htuple.grouped, ended_append [keyword function] htuple.ended⟩
  refine apart_keyword function (fun g hg => .inr ⟨'(', ?_⟩) (htuple.apart rest hr hfollows)
  exact (Option.some.inj hg).symm

theorem expression_labelled {fs : List Fragment} (has : "AS" ∈ ws) (h : Expression ws fs)
    (label : Option Identifier) : Expression ws (labelled fs label) := by
  cases label with
  | none => exact h
  | some i =>
    have hname : Expression ws [name i] := expression_solid rfl nofun rfl
    exact h.append_blank ((expression_keyword has).append_blank hname fun _ => rfl) fun _ => rfl

/-- Names with dots behind them, in front of the last part of a reference. -/
theorem expression_dotted (qualifier : List Identifier) {last : Fragment}
    (hkind : last = symbol '*' ∨ ∃ i, last = name i) :
    Expression ws ((qualifier.flatMap fun i => [name i, symbol '.']) ++ [last]) := by
  induction qualifier with
  | nil =>
    rcases hkind with rfl | ⟨i, rfl⟩
    · exact ⟨List.forall_mem_singleton.2 rfl, fun rest h _ => apart_symbol (by decide) h, .cons rfl .nil,
        ⟨_, rfl, rfl⟩⟩
    · exact expression_solid rfl nofun rfl
  | cons i qualifier ih =>
    refine ⟨List.forall_mem_cons.2 ⟨rfl, List.forall_mem_cons.2 ⟨rfl, ih.known⟩⟩, fun rest h hrest => ?_,
      .cons rfl (.cons rfl ih.grouped), ended_append [name i, symbol '.'] ih.ended⟩
    refine apart_qualifier i (ih.apart rest h hrest) ?_
    -- what stands behind the dot is the last part or the next name
    cases qualifier with
    | nil => exact ⟨last, rfl, hkind⟩
    | cons j qualifier => exact ⟨name j, rfl, .inr ⟨j, rfl⟩⟩

theorem expression_column (c : ColumnRef) : Expression ws c.fragments := by
  obtain ⟨qualifier, column⟩ := c
  cases column with
  | none => exact expression_dotted qualifier (.inl rfl)
  | some i => exact expression_dotted qualifier (.inr ⟨i, rfl⟩)

end Expression

/-! ## Predicates and the parts of a statement -/

/-- The keywords and functions of a select list. -/
def itemWords : List String :=
  ["COUNT", "SUM", "AVG", "MIN", "MAX", "ST_Extent", "ST_Union", "ST_Collect", "DISTINCT", "AS"]

/-- The keywords and functions of expressions, and those behind the relations of a statement. -/
def expressionWords : List String :=
  itemWords ++ ["ST_Intersects", "ST_Contains", "ST_Within", "ST_Equals", "ST_Touches", "ST_Overlaps",
    "ST_Crosses", "ST_DWithin", "ST_GeomFromText", "LIKE", "ILIKE", "NOT", "IN", "IS", "NULL", "BETWEEN",
    "AND", "OR", "ON", "WHERE", "GROUP", "BY", "ORDER", "ASC", "DESC", "NULLS", "FIRST", "LAST", "OFFSET"]

theorem expression_param {ws : List String} (v : Value) : Expression ws [param v] :=
  expression_solid rfl nofun rfl

theorem expression_operand (o : Operand) : Expression expressionWords o.fragments := by
  cases o with
  | column c => exact expression_column c
  | param v => exact expression_param v
  | geometry wkt srid =>
    refine expression_call (by decide) fun a ha => ?_
    simp only [List.mem_cons, List.not_mem_nil, or_false] at ha
    rcases ha with rfl | rfl <;> exact expression_param _

theorem apart_symbols {cs : List Char} (hcs : ∀ c ∈ cs, c ≠ '.') {fs : List Fragment} (h : Apart fs) :
    Apart (cs.map symbol ++ fs) := by
  induction cs with
  | nil => exact h
  | cons c cs ih =>
    rw [List.forall_mem_cons] at hcs
    exact apart_symbol hcs.1 (ih hcs.2)

section Expression

variable {ws : List String} {a b : List Fragment}

/-- A symbol that neither leads to a part of a name nor groups. -/
def isSign (c : Char) : Bool :=
  symbols.contains c && c != '.' && c != '(' && c != ')'

/-- Two expressions with an operator between them. -/
theorem expression_operator (c : Char) (cs : List Char) (h : (c :: cs).all isSign = true)
    (ha : Expression ws a) (hb : Expression ws b) :
    Expression ws (a ++ blank :: (c :: cs).map symbol ++ blank :: b) := by
  have hcs : ∀ d ∈ c :: cs, symbols.contains d = true ∧ d ≠ '.' ∧ d ≠ '(' ∧ d ≠ ')' := by
    intro d hd
    have hsign := List.all_eq_true.1 h d hd
    simpa only [isSign, Bool.and_eq_true, bne_iff_ne, and_assoc] using hsign
  refine ⟨?_, fun rest h hrest => ?_, ?_, ended_append _ (ended_append [blank] hb.ended)⟩
  · exact List.forall_mem_append.2 ⟨List.forall_mem_append.2 ⟨ha.known, List.forall_mem_cons.2
      ⟨rfl, List.forall_mem_map.2 fun d hd => (hcs d hd).1⟩⟩, List.forall_mem_cons.2 ⟨rfl, hb.known⟩⟩
  · have hbehind := apart_symbols (fun d hd => (hcs d hd).2.1) (apart_blank (hb.apart rest h hrest))
    rw [List.append_assoc, List.append_assoc, List.cons_append, List.cons_append]
    refine ha.apart _ (apart_blank hbehind) ?_
    have hc := (hcs c (by simp)).2.2.1
    simpa [follows] using hc
  · refine (ha.grouped.append (.cons rfl (grouped_flat ?_))).append (.cons rfl hb.grouped)
    rw [List.forall_mem_map]
    intro d hd
    obtain ⟨-, -, hopen, hclose⟩ := hcs d hd
    simp [isParen, hopen, hclose]

theorem expression_concatenation (ha : Expression ws a) (hb : Expression ws b) :
    Expression ws (a ++ Predicate.concatenation ++ b) := by
  have h := expression_operator '|' ['|'] (by decide) ha hb
  simpa [Predicate.concatenation] using h

end Expression

theorem expression_compare (c : Comparison) {a b : List Fragment} (ha : Expression expressionWords a)
    (hb : Expression expressionWords b) :
    Expression expressionWords (a ++ blank :: c.sign.map symbol ++ blank :: b) := by
  cases c <;> exact expression_operator _ _ (by decide) ha hb

theorem expression_textMatch (m : TextMatch) {a b : List Fragment} (ha : Expression expressionWords a)
    (hb : Expression expressionWords b) : Expression expressionWords (Predicate.textMatchFragments m a b) := by
  have hany : Expression expressionWords [anyText] := expression_solid rfl nofun rfl
  cases m with
  | like => exact expression_joined (by decide) ha hb
  | likeAnyCase => exact expression_joined (by decide) ha hb
  | notLike => exact expression_joined (by decide) ha hb
  | startsWith => exact expression_joined (by decide) ha (expression_concatenation hb hany)
  | endsWith => exact expression_joined (by decide) ha (expression_concatenation hany hb)
  | contains =>
    exact expression_joined (by decide) ha
      (expression_concatenation (expression_concatenation hany hb) hany)

theorem expression_list (items : List Operand) :
    Expression expressionWords (Predicate.listFragments items) :=
  expression_tuple (forall_expression_map expression_operand items)

theorem expression_range (low high : Operand) : Expression expressionWords
    (Predicate.joined low.fragments ["AND"] high.fragments) :=
  expression_joined (by decide) (expression_operand low) (expression_operand high)

theorem expression_predicate (p : Predicate) : Expression expressionWords p.fragments := by
  induction p with
  | compare c a b => exact expression_compare c (expression_operand a) (expression_operand b)
  | isNull a =>
    exact (expression_operand a).append_blank (expression_words (by decide)) fun _ => rfl
  | isNotNull a =>
    exact (expression_operand a).append_blank (expression_words (by decide)) fun _ => rfl
  | member a items => exact expression_joined (by decide) (expression_operand a) (expression_list items)
  | notMember a items =>
    exact expression_joined (by decide) (expression_operand a) (expression_list items)
  | between a low high =>
    exact expression_joined (by decide) (expression_operand a) (expression_range low high)
  | notBetween a low high =>
    exact expression_joined (by decide) (expression_operand a) (expression_range low high)
  | textMatch m a b => exact expression_textMatch m (expression_operand a) (expression_operand b)
  | spatial r a b =>
    refine expression_call (by cases r <;> decide) fun x hx => ?_
    simp only [List.mem_cons, List.not_mem_nil, or_false] at hx
    rcases hx with rfl | rfl <;> exact expression_operand _
  | withinDistance a b distance =>
    refine expression_call (by decide) fun x hx => ?_
    simp only [List.mem_cons, List.not_mem_nil, or_false] at hx
    rcases hx with rfl | rfl | rfl <;> exact expression_operand _
  | and p q ihp ihq => exact expression_group (expression_joined (by decide) ihp ihq)
  | or p q ihp ihq => exact expression_group (expression_joined (by decide) ihp ihq)

/-- A column, or an aggregate of it. -/
theorem expression_aggregate {ws : List String} (hws : ∀ a : Aggregate, a.function ∈ ws) (a : Option Aggregate)
    (c : ColumnRef) :
    Expression ws (match a with | some a => call a.function [c.fragments] | none => c.fragments) := by
  cases a with
  | none => exact expression_column c
  | some a =>
    refine expression_call (hws a) fun x hx => ?_
    rw [List.mem_singleton.1 hx]
    exact expression_column c

theorem expression_item (i : Item) : Expression itemWords i.fragments :=
  expression_labelled (by decide) (expression_aggregate (by intro a; cases a <;> decide) i.aggregate i.column) i.label

/-- Where an order puts nulls, if it says so. -/
def nullsFragments : NullsPosition → List Fragment
  | .default => []
  | .first => blank :: words ["NULLS", "FIRST"]
  | .last => blank :: words ["NULLS", "LAST"]

theorem expression_order (o : Order) : Expression expressionWords o.fragments := by
  obtain ⟨column, direction, nulls⟩ := o
  obtain ⟨word, hword, hcolumn⟩ : ∃ word ∈ expressionWords, Order.fragments ⟨column, direction, nulls⟩ =
      (column.fragments ++ blank :: [keyword word]) ++ nullsFragments nulls := by
    cases direction with
    | ascending => exact ⟨"ASC", by decide, by cases nulls <;> rfl⟩
    | descending => exact ⟨"DESC", by decide, by cases nulls <;> rfl⟩
  have hordered := (expression_column column).append_blank (expression_keyword hword) fun _ => rfl
  rw [hcolumn]
  cases nulls with
  | default => simpa [nullsFragments] using hordered
  | first => exact hordered.append_blank (expression_words (by decide)) fun _ => rfl
  | last => exact hordered.append_blank (expression_words (by decide)) fun _ => rfl

theorem expression_source (s : Source) : Expression expressionWords s.fragments := by
  refine expression_labelled (by decide) ?_ s.label
  exact expression_column ⟨[s.schema], some s.table⟩

end SpatialQuery.Sql
