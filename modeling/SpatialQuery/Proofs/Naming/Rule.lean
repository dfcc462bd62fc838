import SpatialQuery.Catalog
import SpatialQuery.Proofs.Limit.Clause

/-!
The names of the columns of a result, by the naming rule of SQL: a column has its label for a name, else the name of the
column that it refers to, else that of the function that it calls; a wildcard stands for all columns of the relations
or of the one that it names (`resultNames?`). The rule is read off the tokens of a statement, so it knows nothing of
definitions.
-/

namespace SpatialQuery.Naming

open Token RowLimit

/-! ## Parts of a text -/

/-- Tokens with the number of parentheses around each of them; a parenthesis counts for itself. -/
def levels (depth : Nat) : List Token → List (Token × Nat)
  | [] => []
  | t :: ts => (t, max depth (depthStep depth t)) :: levels (depthStep depth t) ts

/-- The token passes the test, and stands outside of all parentheses. -/
def onTop (p : Token → Bool) (x : Token × Nat) : Bool :=
  x.2 == 0 && p x.1

def parts (p : Token → Bool) (xs : List (Token × Nat)) : List (List (Token × Nat)) :=
  xs.splitOnP (onTop p)

/-- What stands in front of the first such token. -/
def before (p : Token → Bool) (xs : List (Token × Nat)) : List (Token × Nat) :=
  xs.takeWhile fun x => !onTop p x

/-- What stands behind the first such token. -/
def behind (p : Token → Bool) (xs : List (Token × Nat)) : List (Token × Nat) :=
  (xs.dropWhile fun x => !onTop p x).drop 1

section Parts

variable {p : Token → Bool} {xs ys : List (Token × Nat)} {x : Token × Nat}

theorem map_fst_levels (depth : Nat) (ts : List Token) : (levels depth ts).map Prod.fst = ts := by
  induction ts generalizing depth with
  | nil => rfl
  | cons t ts ih => rw [levels, List.map_cons, ih]

theorem levels_append (depth : Nat) (ts us : List Token) :
    levels depth (ts ++ us) = levels depth ts ++ levels (ts.foldl depthStep depth) us := by
  induction ts generalizing depth with
  | nil => rfl
  | cons t ts ih => rw [List.cons_append, levels, ih, levels, List.cons_append, List.foldl_cons]

theorem not_onTop {ts : List Token} (h : ∀ t ∈ ts, p t = false) (depth : Nat) :
    ∀ y ∈ levels depth ts, onTop p y = false := by
  intro y hy
  have hmem : y.1 ∈ ts := by
    rw [← map_fst_levels depth ts]
    exact List.mem_map_of_mem hy
  rw [onTop, h y.1 hmem, Bool.and_false]

theorem parts_of_none (h : ∀ y ∈ xs, onTop p y = false) : parts p xs = [xs] :=
  List.splitOnP_eq_singleton h

theorem parts_append (hx : onTop p x = true) : parts p (xs ++ x :: ys) = parts p xs ++ parts p ys :=
  List.splitOnP_append_cons xs ys hx

theorem before_of_none (h : ∀ y ∈ xs, onTop p y = false) : before p xs = xs :=
  List.takeWhile_eq_self_iff.2 fun y hy => by rw [h y hy]; rfl

theorem before_append (h : ∀ y ∈ xs, onTop p y = false) (hx : onTop p x = true) :
    before p (xs ++ x :: ys) = xs := by
  rw [before, List.takeWhile_append_of_pos fun y hy => by rw [h y hy]; rfl]
  simp [hx]

theorem behind_append (h : ∀ y ∈ xs, onTop p y = false) (hx : onTop p x = true) :
    behind p (xs ++ x :: ys) = ys := by
  rw [behind, List.dropWhile_append_of_pos fun y hy => by rw [h y hy]; rfl]
  simp [hx]

end Parts

/-! ## Items -/

/-- What an item of a select list adds to the result. -/
inductive Entry where
  | star (qualifier : List String)
  | named (name : String)
  deriving DecidableEq, Repr

/-- A column or a wildcard, behind the names of a qualifier. -/
def dotted? (qualifier : List String) : List Token → Option Entry
  | [] => none
  | [t] => if t.isPunct '*' then some (.star qualifier) else t.name?.map .named
  | t :: dot :: ts =>
    if dot.isPunct '.' then t.name?.bind fun n => dotted? (qualifier ++ [n]) ts else none

/-- The function, if the expression is a call and nothing else. -/
def callee? : List (Token × Nat) → Option String
  | f :: x :: xs => if x.1.isPunct '(' && (x :: xs).all (0 < ·.2) then f.1.name? else none
  | _ => none

def expression? (xs : List (Token × Nat)) : Option Entry :=
  match callee? xs with
  | some f => some (.named f)
  | none => dotted? [] (xs.map Prod.fst)

/-- The label names the column. A wildcard has no label; behind a qualifier it may have one, which is passed over. -/
def Entry.labelled? (label : String) : Entry → Option Entry
  | .star [] => none
  | .star qualifier => some (.star qualifier)
  | .named _ => some (.named label)

/-- An item, with a label behind `AS` if it has one. A label names any expression. -/
def entryOf? (xs : List (Token × Nat)) : Option Entry :=
  match parts (·.isKeyword "as") xs with
  | [e] => expression? e
  | [e, [l]] => l.1.name?.bind fun label => ((expression? e).getD (.named label)).labelled? label
  | _ => none

/-! ## Relations -/

/-- A relation of a statement, with its label. -/
structure Range where
  relation : Relation
  label : Option String
  deriving DecidableEq, Repr

namespace Range

/-- The name that stands for the relation. -/
def exposed (r : Range) : String :=
  r.label.getD r.relation.table

/-- The qualifier names the relation. A label hides its name. -/
def isNamed (qualifier : List String) (r : Range) : Bool :=
  match qualifier with
  | [n] => r.exposed == n
  | [schema, n] => r.label.isNone && r.relation == ⟨schema, n⟩
  | _ => false

/-- The relation that the qualifier names, if it names no other. -/
def only? (qualifier : List String) (ranges : List Range) : Option Range :=
  match ranges.filter (isNamed qualifier) with
  | [r] => some r
  | _ => none

def names? (catalog : Catalog) (r : Range) : Option (List String) :=
  (catalog.columns? r.relation).map fun columns => columns.map (·.name)

end Range

/-- A relation with its schema, and with a label behind `AS` if it has one. -/
def range? : List Token → Option Range
  | [s, dot, t] => if dot.isPunct '.' then do return ⟨⟨← s.name?, ← t.name?⟩, none⟩ else none
  | [s, dot, t, as, l] =>
    if dot.isPunct '.' && as.isKeyword "as" then do return ⟨⟨← s.name?, ← t.name?⟩, some (← l.name?)⟩ else none
  | _ => none

/-! ## Statements -/

def isComma (t : Token) : Bool :=
  t.isPunct ','

def isFrom (t : Token) : Bool :=
  t.isKeyword "from"

/-- What stands between two relations. -/
def isJoint (t : Token) : Bool :=
  isComma t || t.isKeyword "join"

/-- The words around the relations of a join. -/
def isJoinWord (t : Token) : Bool :=
  t.isAnyKeyword ["on", "using", "natural", "inner", "left", "right", "full", "cross"]

/-- The words that begin a clause behind the relations. -/
def isClause (t : Token) : Bool :=
  t.isAnyKeyword ["where", "group", "having", "window", "union", "intersect", "except", "order", "limit", "offset",
    "fetch", "for"]

/-- The items and the relations of a statement. -/
structure Reading where
  entries : List Entry
  ranges : List Range
  deriving DecidableEq, Repr

def selectList? (xs : List (Token × Nat)) : Option (List Entry) :=
  (parts isComma xs).mapM entryOf?

/-- The relations, without the conditions of their joins. -/
def fromList? (xs : List (Token × Nat)) : Option (List Range) :=
  (parts isJoint xs).mapM fun part => range? ((part.map Prod.fst).takeWhile fun t => !isJoinWord t)

/-- The items in front of `FROM`, and the relations up to the next clause. -/
def body? (xs : List (Token × Nat)) : Option Reading := do
  let entries ← selectList? (before isFrom xs)
  let ranges ← fromList? (before isClause (behind isFrom xs))
  return ⟨entries, ranges⟩

def reading? : List Token → Option Reading
  | select :: distinct :: ts =>
    if !select.isKeyword "select" then none
    else if distinct.isKeyword "distinct" then body? (levels 0 ts)
    else body? (levels 0 (distinct :: ts))
  | _ => none

/-! ## Results -/

/-- The columns that an item adds. -/
def Entry.names? (catalog : Catalog) (ranges : List Range) : Entry → Option (List String)
  | .named name => some [name]
  | .star [] => (ranges.mapM (Range.names? catalog)).map List.flatten
  | .star qualifier => (Range.only? qualifier ranges).bind (Range.names? catalog)

/-- The names of the columns of the result, if the tokens are a statement and its relations are known. -/
def resultNames? (catalog : Catalog) (ts : List Token) : Option (List String) :=
  (reading? ts).bind fun q => (q.entries.mapM (Entry.names? catalog q.ranges)).map List.flatten

end SpatialQuery.Naming
