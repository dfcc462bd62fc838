import SpatialQuery.Relation
import SpatialQuery.Token

/-!
The relations that a statement reads, found from its tokens without a grammar: every name after
`FROM`, `JOIN` and `TABLE`, at any depth. Names that a `WITH` clause defines are left out where they
are in scope, and so are calls of functions.

A place in the statement is given as the number of tokens from it to the end of the statement.
-/

namespace SpatialQuery.Reads

/-- A name in the place of a relation. -/
structure Mention where
  schema : Option String
  table : String
  place : Nat
  deriving DecidableEq, Repr

/-- A name that a `WITH` clause defines. It is in scope behind `stop` tokens, up to the place `start`
that lies before them. -/
structure Binding where
  name : String
  start : Nat
  stop : Nat
  deriving DecidableEq, Repr

/-- Words that end an item of a `FROM` list, where other words name it. -/
def clauseKeywords : List String := [
  "where", "join", "inner", "left", "right", "full", "cross", "natural", "on", "using", "group",
  "order", "limit", "offset", "union", "intersect", "except", "window", "having", "fetch", "for",
  "tablesample", "with"]

def isAlias (t : Token) : Bool :=
  t.kind == .quotedIdentifier || (t.kind == .word && !t.isAnyKeyword clauseKeywords)

/-- The tokens from the parenthesis that closes the group, with `depth` groups open inside it. -/
def groupEnd : Nat → List Token → List Token
  | _, [] => []
  | depth, t :: ts =>
    if t.isPunct '(' then groupEnd (depth + 1) ts
    else if t.isPunct ')' then
      match depth with
      | 0 => t :: ts
      | depth + 1 => groupEnd depth ts
    else groupEnd depth ts

/-- The tokens behind the group that has just been opened. -/
def leaveGroup (ts : List Token) : List Token :=
  (groupEnd 0 ts).drop 1

def skipToken (p : Token → Bool) : List Token → List Token
  | t :: ts => if p t then ts else t :: ts
  | [] => []

/-- The tokens behind the group that begins here, if one does. -/
def skipGroup : List Token → List Token
  | t :: ts => if t.isPunct '(' then leaveGroup ts else t :: ts
  | [] => []

/-- Further parts of a name, each behind a dot. -/
def nameParts : List Token → List String × List Token
  | dot :: t :: ts =>
    if dot.isPunct '.' then
      match t.name? with
      | some part => (part :: (nameParts ts).1, (nameParts ts).2)
      | none => ([], dot :: t :: ts)
    else ([], dot :: t :: ts)
  | ts => ([], ts)

/-- The last part of a name is the table, the part before it the schema. -/
def mention (first : String) (others : List String) (place : Nat) : Mention :=
  match (first :: others).reverse with
  | table :: schema :: _ => ⟨some schema, table, place⟩
  | _ => ⟨none, first, place⟩

/-- One item of a `FROM` list, with the relation that it names: a group and a call name none. -/
def item? : List Token → Option (Option Mention × List Token)
  | [] => none
  | t :: ts =>
    if t.isPunct '(' then some (none, leaveGroup ts)
    else
      match t.name? with
      | none => none
      | some first =>
        let (others, rest) := nameParts ts
        match rest with
        | r :: rs =>
          if r.isPunct '(' then some (none, leaveGroup rs)
          else some (some (mention first others (ts.length + 1)), r :: rs)
        | [] => some (some (mention first others (ts.length + 1)), [])

/-- The alias of an item, with or without `AS` and names for its columns. -/
def skipAlias (ts : List Token) : List Token :=
  match skipToken (·.isKeyword "as") ts with
  | t :: rest => if isAlias t then skipGroup rest else t :: rest
  | [] => []

theorem length_groupEnd_le (depth : Nat) (ts : List Token) :
    (groupEnd depth ts).length ≤ ts.length := by
  fun_induction groupEnd depth ts <;> simp_all <;> omega

theorem length_leaveGroup_le (ts : List Token) : (leaveGroup ts).length ≤ ts.length := by
  have := length_groupEnd_le 0 ts
  simp only [leaveGroup, List.length_drop]
  omega

theorem length_skipToken_le (p : Token → Bool) (ts : List Token) :
    (skipToken p ts).length ≤ ts.length := by
  cases ts with
  | nil => simp [skipToken]
  | cons t ts => simp only [skipToken]; split <;> simp

theorem length_skipGroup_le (ts : List Token) : (skipGroup ts).length ≤ ts.length := by
  cases ts with
  | nil => simp [skipGroup]
  | cons t ts =>
    have := length_leaveGroup_le ts
    simp only [skipGroup]
    split <;> simp only [List.length_cons] <;> omega

theorem length_nameParts_le (ts : List Token) : (nameParts ts).2.length ≤ ts.length := by
  fun_induction nameParts ts <;> simp_all
  omega

theorem length_skipAlias_le (ts : List Token) : (skipAlias ts).length ≤ ts.length := by
  have h := length_skipToken_le (·.isKeyword "as") ts
  simp only [skipAlias]
  split
  · rename_i t rest heq
    have := length_skipGroup_le rest
    rw [heq, List.length_cons] at h
    split
    · omega
    · exact h
  · simp

theorem length_of_item? {ts rest : List Token} {m : Option Mention}
    (h : item? ts = some (m, rest)) : rest.length < ts.length := by
  cases ts with
  | nil => simp [item?] at h
  | cons t ts =>
    have hl := length_leaveGroup_le ts
    have hn := length_nameParts_le ts
    simp only [item?] at h
    split at h
    · simp only [Option.some.injEq, Prod.mk.injEq] at h
      simp only [← h.2, List.length_cons]; omega
    · split at h
      · simp at h
      · split at h
        · rename_i r rs heq
          have := length_leaveGroup_le rs
          rw [heq, List.length_cons] at hn
          split at h <;>
          · simp only [Option.some.injEq, Prod.mk.injEq] at h
            simp only [← h.2, List.length_cons]; omega
        · simp only [Option.some.injEq, Prod.mk.injEq] at h
          simp [← h.2]

/-- The relations of a `FROM` list, or of its first item only. -/
def fromList (commas : Bool) (ts : List Token) : List Mention :=
  match _h : item? (ts.dropWhile (·.isAnyKeyword ["lateral", "only"])) with
  | none => []
  | some (found, rest) =>
    found.toList ++
      match _h' : skipAlias rest with
      | t :: more => if commas && t.isPunct ',' then fromList commas more else []
      | [] => []
termination_by ts.length
decreasing_by
  have h₁ := length_of_item? _h
  have h₂ := length_skipAlias_le rest
  have h₃ := (List.dropWhile_suffix (·.isAnyKeyword ["lateral", "only"]) (l := ts)).length_le
  rw [_h', List.length_cons] at h₂
  omega

/-- What follows the definition of a name in a `WITH` clause, when the name has been read. -/
def afterBinding? (ts : List Token) : Option (List Token) :=
  match skipGroup ts with
  | t :: body =>
    if t.isKeyword "as" then
      match skipToken (·.isKeyword "materialized") (skipToken (·.isKeyword "not") body) with
      | p :: query => if p.isPunct '(' then some (leaveGroup query) else none
      | [] => none
    else none
  | [] => none

theorem length_of_afterBinding? {ts rest : List Token} (h : afterBinding? ts = some rest) :
    rest.length < ts.length := by
  have h₁ := length_skipGroup_le ts
  simp only [afterBinding?] at h
  split at h
  · rename_i t body heq
    rw [heq, List.length_cons] at h₁
    split at h
    · have h₂ := length_skipToken_le (·.isKeyword "not") body
      have h₃ := length_skipToken_le (·.isKeyword "materialized")
        (skipToken (·.isKeyword "not") body)
      split at h
      · rename_i p query heq'
        have h₄ := length_leaveGroup_le query
        rw [heq', List.length_cons] at h₃
        split at h
        · simp only [Option.some.injEq] at h
          rw [← h]; omega
        · simp at h
      · simp at h
    · simp at h
  · simp at h

/-- The names that a `WITH` clause defines in the query that ends at the place `stop`. A recursive
name is in scope from itself on, another from the end of its own definition. -/
def bindingList (recursive : Bool) (stop : Nat) (ts : List Token) : List Binding :=
  match ts with
  | [] => []
  | t :: rest =>
    match t.name? with
    | none => []
    | some name =>
      match _h : afterBinding? rest with
      | none => []
      | some behind =>
        ⟨name, if recursive then ts.length else behind.length, stop⟩ ::
          match _h' : behind with
          | comma :: more => if comma.isPunct ',' then bindingList recursive stop more else []
          | [] => []
termination_by ts.length
decreasing_by
  have := length_of_afterBinding? _h
  simp only [List.length_cons] at *
  omega

/-- The names that all `WITH` clauses define. -/
def bindings : List Token → List Binding
  | [] => []
  | t :: ts =>
    (if t.isKeyword "with" then
      bindingList (ts.head?.any (·.isKeyword "recursive")) (groupEnd 0 ts).length
        (skipToken (·.isKeyword "recursive") ts)
    else []) ++ bindings ts

/-- `FROM` in `IS DISTINCT FROM`, by the tokens before it, the nearest first. -/
def isDistinctFrom : List Token → Bool
  | t :: u :: _ => t.isKeyword "distinct" && (u.isKeyword "is" || u.isKeyword "not")
  | _ => false

/-- The names in the place of relations. `FROM` introduces relations only in a query, that is behind
a `SELECT` in the same parentheses: `here` says so of these parentheses, `outer` of those around. -/
def mentions (before : List Token) (here : Bool) (outer : List Bool) : List Token → List Mention
  | [] => []
  | t :: ts =>
    -- A call such as `EXTRACT(YEAR FROM t)` holds a `FROM` that introduces no relation.
    if t.isPunct '(' then mentions (t :: before) false (here :: outer) ts
    else if t.isPunct ')' then
      match outer with
      | [] => mentions (t :: before) here [] ts
      | around :: outer => mentions (t :: before) around outer ts
    else if t.isKeyword "select" then mentions (t :: before) true outer ts
    else if t.isKeyword "from" then
      (if here && !isDistinctFrom before then fromList true ts else []) ++
        mentions (t :: before) here outer ts
    else if t.isKeyword "join" || t.isKeyword "table" then
      fromList false ts ++ mentions (t :: before) here outer ts
    else mentions (t :: before) here outer ts

def Binding.hides (d : Binding) (m : Mention) : Bool :=
  d.name == m.table && d.stop < m.place && m.place ≤ d.start

/-- The relation that is meant; none where the name is one of a `WITH` clause. -/
def resolve (ds : List Binding) (defaultSchema : String) (m : Mention) : Option Relation :=
  match m.schema with
  | some schema => some ⟨schema, m.table⟩
  | none => if ds.any (·.hides m) then none else some ⟨defaultSchema, m.table⟩

end Reads

/-- The relations that a statement without comments reads. -/
def Relation.readBy (defaultSchema : String) (ts : List Token) : List Relation :=
  (Reads.mentions [] false [] ts).filterMap (Reads.resolve (Reads.bindings ts) defaultSchema)

end SpatialQuery
