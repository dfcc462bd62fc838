import SpatialQuery.Proofs.Meaning.Truth
import SpatialQuery.Proofs.Rendering.Queries
import SpatialQuery.Proofs.Rendering.Values

/-!
The text of a predicate is read as the predicate was meant. `Reads` says of fragments that they are read as
an expression wherever an operand may stand; there is one lemma for each way in which fragments are put
together, and `readExpr_predicate` follows by induction on the predicate.
-/

namespace SpatialQuery.Meaning

open Sql Sql.Fragment Token

/-! ## Expressions of operands and predicates -/

/-- The expression of an operand, whose first placeholder has the index. -/
def operandExpr (index : Nat) : Operand → Expr
  | .column c => .column (columnNames c)
  | .param _ => .param index
  | .geometry _ _ => .call "st_geomfromtext" [.param index, .param (index + 1)]

def operandExprs (index : Nat) : List Operand → List Expr
  | [] => []
  | o :: os => operandExpr index o :: operandExprs (o.fragments.foldl next index) os

def anything : Expr :=
  .text ['%']

/-- What a text is matched with. -/
def matchExpr (m : TextMatch) (a b : Expr) : Expr :=
  match m with
  | .like => .binary (.like false false) a b
  | .likeAnyCase => .binary (.like false true) a b
  | .notLike => .binary (.like true false) a b
  | .startsWith => .binary (.like false false) a (.binary .concat b anything)
  | .endsWith => .binary (.like false false) a (.binary .concat anything b)
  | .contains =>
    .binary (.like false false) a (.binary .concat (.binary .concat anything b) anything)

/-- The name of a function, as SQL reads it. -/
def functionName (word : String) : String :=
  String.ofList (Text.lowerChars word.toList)

def predicateExpr (index : Nat) : Predicate → Expr
  | .compare c a b =>
    .binary (.compare c) (operandExpr index a) (operandExpr (a.fragments.foldl next index) b)
  | .isNull a => .isNull false (operandExpr index a)
  | .isNotNull a => .isNull true (operandExpr index a)
  | .member a items =>
    .member false (operandExpr index a) (operandExprs (a.fragments.foldl next index) items)
  | .notMember a items =>
    .member true (operandExpr index a) (operandExprs (a.fragments.foldl next index) items)
  | .between a low high =>
    .between false (operandExpr index a) (operandExpr (a.fragments.foldl next index) low)
      (operandExpr (low.fragments.foldl next (a.fragments.foldl next index)) high)
  | .notBetween a low high =>
    .between true (operandExpr index a) (operandExpr (a.fragments.foldl next index) low)
      (operandExpr (low.fragments.foldl next (a.fragments.foldl next index)) high)
  | .textMatch m a b =>
    matchExpr m (operandExpr index a) (operandExpr (a.fragments.foldl next index) b)
  | .spatial r a b => .call (functionName r.function) (operandExprs index [a, b])
  | .withinDistance a b distance => .call "st_dwithin" (operandExprs index [a, b, distance])
  | .and p q => .binary .and (predicateExpr index p) (predicateExpr (p.fragments.foldl next index) q)
  | .or p q => .binary .or (predicateExpr index p) (predicateExpr (p.fragments.foldl next index) q)

/-- The operand is not `*`. -/
def isSingle : Operand → Bool
  | .column c => !c.isWildcard
  | _ => true

/-- No operand is `*`, and no list is empty. -/
def isReadable : Predicate → Bool
  | .compare _ a b | .textMatch _ a b | .spatial _ a b => [a, b].all isSingle
  | .isNull a | .isNotNull a => isSingle a
  | .member a items | .notMember a items => isSingle a && !items.isEmpty && items.all isSingle
  | .between a b c | .notBetween a b c | .withinDistance a b c => [a, b, c].all isSingle
  | .and p q | .or p q => isReadable p && isReadable q

/-! ## Reading fragments -/

/-- No operator at the top binds as tightly as `n`. An `AND` is none behind `BETWEEN`. -/
def Loose (n : Nat) : List Frame → Prop
  | .binary o _ :: _ => o.binding < n
  | .low _ _ :: _ => Binary.and.binding < n
  | .high _ _ _ :: _ => rangeBinding < n
  | _ => True

theorem Loose.mono {m n : Nat} {frames : List Frame} (h : Loose m frames) (hle : m ≤ n) :
    Loose n frames := by
  match frames with
  | [] | .group :: _ | .items _ _ :: _ => trivial
  | .binary _ _ :: _ | .low _ _ :: _ | .high _ _ _ :: _ => exact Nat.lt_of_lt_of_le h hle

theorem reduce_of_loose {n : Nat} {frames : List Frame} (h : Loose n frames) (e : Expr) :
    reduce n frames e = (frames, e) := by
  match frames with
  | [] | .group :: _ | .items _ _ :: _ | .low _ _ :: _ => rfl
  | .binary _ _ :: _ | .high _ _ _ :: _ => exact if_neg (Nat.not_le.2 h)

/-- Closing tight operators first changes nothing. -/
theorem reduce_reduce {m n : Nat} (h : m ≤ n) (frames : List Frame) (e : Expr) :
    reduce m (reduce n frames e).1 (reduce n frames e).2 = reduce m frames e := by
  fun_induction reduce n frames e with
  | case1 o a frames e ho ih => rw [ih, reduce, if_pos (Nat.le_trans h ho)]
  | case2 => rfl
  | case3 negated a low frames e hr ih => rw [ih, reduce, if_pos (Nat.le_trans h hr)]
  | case4 => rfl
  | case5 => rfl

theorem shiftAnd_of_loose {frames : List Frame} {e : Expr}
    (h : Loose Binary.and.binding (reduce Binary.and.binding frames e).1) :
    shiftAnd frames e = shift .and frames e := by
  have hle : Binary.and.binding ≤ testBinding := by decide
  rw [shift, ← reduce_reduce hle frames e]
  rw [← reduce_reduce hle frames e] at h
  unfold shiftAnd
  split
  -- an open `BETWEEN` at the top is not loose
  · rename_i hlow
    rw [hlow] at h
    exact absurd h (Nat.lt_irrefl _)
  · rename_i hreduce
    rw [hreduce]
    rfl

theorem reduce_binary {k : Nat} {o : Binary} (h : k ≤ o.binding) (a e : Expr) (frames : List Frame) :
    reduce k (.binary o a :: frames) e = reduce k frames (.binary o a e) :=
  if_pos h

theorem reduce_high {k : Nat} (h : k ≤ rangeBinding) (negated : Bool) (a low e : Expr)
    (frames : List Frame) :
    reduce k (.high negated a low :: frames) e = reduce k frames (.between negated a low e) :=
  if_pos h

theorem run_of_step {s s' : State} {f : Fragment} {t : Token} {blanks : List Char} {index : Nat}
    (ht : f.token? index = some t) (h : step s ⟨blanks, t⟩ = some s') (fs : List Fragment) :
    run s (scan blanks index (f :: fs)).pieces = run s' (scan [] (f.next index) fs).pieces := by
  simp only [scan, ht, run, List.foldlM_cons, h]
  rfl

/-- Fragments are read as an expression whatever is open. -/
structure Closed (index : Nat) (fs : List Fragment) (e : Expr) : Prop where
  begins : ∃ f gs, fs = f :: gs ∧ f.isSolid = true
  run : ∀ blanks frames, ∃ blanks', ∀ rest,
    run ⟨frames, .operand⟩ (scan blanks index (fs ++ rest)).pieces =
      run ⟨frames, .behind e⟩ (scan blanks' (fs.foldl next index) rest).pieces

/-- Fragments are read as an expression with operators that bind at least as tightly as `n`, behind frames
that bind less tightly. What the fragments leave open closes to the expression. -/
structure Reads (n index : Nat) (fs : List Fragment) (e : Expr) : Prop where
  begins : ∃ f gs, fs = f :: gs ∧ f.isSolid = true
  run : ∀ blanks frames, Loose n frames → ∃ frames' e' blanks',
    (∀ k ≤ n, reduce k frames' e' = reduce k frames e) ∧ ∀ rest,
      run ⟨frames, .operand⟩ (scan blanks index (fs ++ rest)).pieces =
        run ⟨frames', .behind e'⟩ (scan blanks' (fs.foldl next index) rest).pieces

theorem Closed.reads {index : Nat} {fs : List Fragment} {e : Expr} (h : Closed index fs e) (n : Nat) :
    Reads n index fs e where
  begins := h.begins
  run blanks frames _ := by
    obtain ⟨blanks', hrun⟩ := h.run blanks frames
    exact ⟨frames, e, blanks', fun _ _ => rfl, hrun⟩

theorem Reads.mono {m n index : Nat} {fs : List Fragment} {e : Expr} (h : Reads n index fs e) (hle : m ≤ n) :
    Reads m index fs e where
  begins := h.begins
  run blanks frames hl := by
    obtain ⟨frames', e', blanks', hreduce, hrun⟩ := h.run blanks frames (hl.mono hle)
    exact ⟨frames', e', blanks', fun k hk => hreduce k (Nat.le_trans hk hle), hrun⟩

/-- The fragments stand for an operator between its operands. -/
structure Writes (o : Binary) (ops : List Fragment) : Prop where
  next : ∀ index, ops.foldl next index = index
  run : ∀ frames e blanks index f fs, Loose o.binding (reduce o.binding frames e).1 → f.isSolid = true →
    run ⟨frames, .behind e⟩ (scan blanks index (blank :: ops ++ blank :: f :: fs)).pieces =
      run (shift o frames e) (scan [' '] index (f :: fs)).pieces

/-- The characters of an operator end at a blank. -/
theorem run_sign {o : Binary} {cs : List Char} (hcs : List.lookup cs signs = some o) {f : Fragment}
    (hf : f.isSolid = true) (frames : List Frame) (e : Expr) (index : Nat) (fs : List Fragment) :
    run ⟨frames, .sign e cs⟩ (scan [' '] index (f :: fs)).pieces =
      run (shift o frames e) (scan [' '] index (f :: fs)).pieces := by
  obtain ⟨t, ht⟩ := token?_of_isSolid hf index
  -- no further character follows directly, so `cs` is the whole operator
  have hchar : signChar? ⟨[' '], t⟩ = none := by
    unfold signChar?
    split <;> rfl
  have hstep : step ⟨frames, .sign e cs⟩ ⟨[' '], t⟩ = step (shift o frames e) ⟨[' '], t⟩ := by
    change signStep frames e cs ⟨[' '], t⟩ = _
    rw [signStep, hchar]
    change (List.lookup cs signs).bind _ = _
    rw [hcs]
    rfl
  simp only [scan, ht, run, List.foldlM_cons, hstep]

theorem writes_compare (c : Comparison) : Writes (.compare c) (c.sign.map symbol) where
  next index := by cases c <;> rfl
  run frames e blanks index f fs _ hf := by
    cases c <;> exact run_sign rfl hf frames e index fs

theorem writes_concat : Writes .concat [symbol '|', symbol '|'] where
  next _ := rfl
  run frames e _ index _ fs _ hf := run_sign rfl hf frames e index fs

theorem writes_like : Writes (.like false false) (words ["LIKE"]) where
  next _ := rfl
  run _ _ _ _ _ _ _ _ := rfl

theorem writes_ilike : Writes (.like false true) (words ["ILIKE"]) where
  next _ := rfl
  run _ _ _ _ _ _ _ _ := rfl

theorem writes_notLike : Writes (.like true false) (words ["NOT", "LIKE"]) where
  next _ := rfl
  run _ _ _ _ _ _ _ _ := rfl

theorem writes_or : Writes .or (words ["OR"]) where
  next _ := rfl
  run _ _ _ _ _ _ _ _ := rfl

theorem writes_and : Writes .and (words ["AND"]) where
  next _ := rfl
  run frames e _ index f fs hl _ := by
    change run (shiftAnd frames e) (scan [' '] index (f :: fs)).pieces = _
    rw [shiftAnd_of_loose hl]

theorem reads_binary {o : Binary} {ops : List Fragment} (hops : Writes o ops) {m n index : Nat}
    {fs gs : List Fragment} {a b : Expr} (ha : Reads m index fs a) (hm : o.binding ≤ m)
    (hb : Reads n (fs.foldl next index) gs b) (hn : o.binding < n) :
    Reads o.binding index (fs ++ blank :: ops ++ blank :: gs) (.binary o a b) where
  begins := by
    obtain ⟨f, fs', rfl, hf⟩ := ha.begins
    exact ⟨f, _, rfl, hf⟩
  run blanks frames hl := by
    obtain ⟨framesA, a', blanksA, hreduceA, hrunA⟩ := ha.run blanks frames (hl.mono hm)
    obtain ⟨framesB, b', blanksB, hreduceB, hrunB⟩ := hb.run [' '] (.binary o a :: frames) hn
    -- what the left operand leaves open closes to `a`, and nothing in front of it does
    have hclose : reduce o.binding framesA a' = (frames, a) := by
      rw [hreduceA _ hm, reduce_of_loose hl]
    refine ⟨framesB, b', blanksB, fun k hk => ?_, fun rest => ?_⟩
    -- closing what the right operand leaves open also closes the operator
    · rw [hreduceB k (Nat.le_trans hk (Nat.le_of_lt hn)), reduce_binary hk]
    obtain ⟨g, gs', rfl, hg⟩ := hb.begins
    have hop := hops.run framesA a' blanksA (fs.foldl next index) g (gs' ++ rest) (by rwa [hclose]) hg
    have hindex : (fs ++ blank :: ops ++ blank :: g :: gs').foldl next index =
        (g :: gs').foldl next (fs.foldl next index) := by
      simp only [List.foldl_append, List.foldl_cons, Fragment.next, hops.next]
    rw [shift, hclose] at hop
    rw [hindex, ← hrunB rest, List.append_assoc, List.append_assoc, hrunA]
    exact hop

/-! ## Parentheses, tests behind an expression, ranges -/

theorem closed_group {n index : Nat} {fs : List Fragment} {e : Expr} (h : Reads n index fs e) :
    Closed index (symbol '(' :: fs ++ [symbol ')']) e where
  begins := ⟨_, _, rfl, rfl⟩
  run blanks frames := by
    obtain ⟨frames', e', blanks', hreduce, hrun⟩ := h.run [] (.group :: frames) trivial
    have hclose : closeGroup frames' e' = some ⟨frames, .behind e⟩ := by
      rw [closeGroup, hreduce 0 (Nat.zero_le n)]
      rfl
    refine ⟨[], fun rest => ?_⟩
    have hindex : (symbol '(' :: fs ++ [symbol ')']).foldl next index = fs.foldl next index := by
      simp only [List.foldl_append, List.foldl_cons, List.foldl_nil, Fragment.next]
    rw [hindex, List.append_assoc, List.cons_append]
    calc run ⟨.group :: frames, .operand⟩ (scan [] index (fs ++ symbol ')' :: rest)).pieces
        = run ⟨frames', .behind e'⟩ (scan blanks' (fs.foldl next index) (symbol ')' :: rest)).pieces :=
          hrun _
      _ = (closeGroup frames' e').bind (run · (scan [] (fs.foldl next index) rest).pieces) := rfl
      _ = _ := by rw [hclose]; rfl

/-- A test behind an operand. It closes what binds more tightly, which the operand leaves as it is. -/
theorem reads_behind {n index : Nat} {fs ops : List Fragment} {a : Expr} (ha : Closed index fs a)
    (f : Expr → Expr)
    (hops : ∀ frames e blanks, ∃ blanks', ∀ rest,
      run ⟨frames, .behind e⟩ (scan blanks (fs.foldl next index) (ops ++ rest)).pieces =
        run ⟨(reduce n frames e).1, .behind (f (reduce n frames e).2)⟩
          (scan blanks' (ops.foldl next (fs.foldl next index)) rest).pieces) :
    Reads n index (fs ++ ops) (f a) where
  begins := by
    obtain ⟨g, gs, rfl, hg⟩ := ha.begins
    exact ⟨g, _, rfl, hg⟩
  run blanks frames hl := by
    obtain ⟨blanksA, hrun⟩ := ha.run blanks frames
    obtain ⟨blanks', hbehind⟩ := hops frames a blanksA
    rw [reduce_of_loose hl] at hbehind
    refine ⟨frames, f a, blanks', fun _ _ => rfl, fun rest => ?_⟩
    rw [List.append_assoc, hrun, hbehind, List.foldl_append]

theorem reads_isNull {index : Nat} {fs : List Fragment} {a : Expr} (ha : Closed index fs a) :
    Reads testBinding index (fs ++ blank :: words ["IS", "NULL"]) (.isNull false a) :=
  reads_behind ha (.isNull false) fun _ _ _ => ⟨[], fun _ => rfl⟩

theorem reads_isNotNull {index : Nat} {fs : List Fragment} {a : Expr} (ha : Closed index fs a) :
    Reads testBinding index (fs ++ blank :: words ["IS", "NOT", "NULL"]) (.isNull true a) :=
  reads_behind ha (.isNull true) fun _ _ _ => ⟨[], fun _ => rfl⟩

/-- A range, whose keywords lead to its lower bound. -/
theorem reads_range {index : Nat} {ws : List String} {negated : Bool}
    (hws : ∀ frames e blanks index rest,
      run ⟨frames, .behind e⟩ (scan blanks index (blank :: words ws ++ blank :: rest)).pieces =
        run ⟨.low negated (reduce rangeBinding frames e).2 :: (reduce rangeBinding frames e).1, .operand⟩
          (scan [' '] index rest).pieces)
    {fs gs hs : List Fragment} {a low high : Expr} (ha : Closed index fs a)
    (hlow : Closed (fs.foldl next index) gs low)
    (hhigh : Closed (gs.foldl next (fs.foldl next index)) hs high) :
    Reads rangeBinding index (Predicate.joined fs ws (Predicate.joined gs ["AND"] hs))
      (.between negated a low high) where
  begins := by
    obtain ⟨g, gs, rfl, hg⟩ := ha.begins
    exact ⟨g, _, rfl, hg⟩
  run blanks frames hl := by
    obtain ⟨blanksA, hrunA⟩ := ha.run blanks frames
    obtain ⟨blanksL, hrunL⟩ := hlow.run [' '] (.low negated a :: frames)
    obtain ⟨blanksH, hrunH⟩ := hhigh.run [' '] (.high negated a low :: frames)
    refine ⟨.high negated a low :: frames, high, blanksH, fun k hk => reduce_high hk _ _ _ _ _,
      fun rest => ?_⟩
    have hbetween := hws frames a blanksA (fs.foldl next index)
      (gs ++ (blank :: words ["AND"] ++ blank :: (hs ++ rest)))
    rw [reduce_of_loose hl, hrunL] at hbetween
    have hindex : (Predicate.joined fs ws (Predicate.joined gs ["AND"] hs)).foldl next index =
        hs.foldl next (gs.foldl next (fs.foldl next index)) := by
      simp only [foldl_next, values_joined, List.length_append, Nat.add_assoc]
    rw [hindex, ← hrunH rest]
    simp only [Predicate.joined, List.append_assoc, List.cons_append] at hbetween ⊢
    rw [hrunA]
    -- behind the lower bound, the `AND` belongs to the range
    exact hbetween

theorem reads_between {index : Nat} {fs gs hs : List Fragment} {a low high : Expr} (negated : Bool)
    (ha : Closed index fs a) (hlow : Closed (fs.foldl next index) gs low)
    (hhigh : Closed (gs.foldl next (fs.foldl next index)) hs high) :
    Reads rangeBinding index
      (Predicate.joined fs (if negated then ["NOT", "BETWEEN"] else ["BETWEEN"])
        (Predicate.joined gs ["AND"] hs))
      (.between negated a low high) := by
  cases negated with
  | false => exact reads_range (fun _ _ _ _ _ => rfl) ha hlow hhigh
  | true => exact reads_range (fun _ _ _ _ _ => rfl) ha hlow hhigh

/-! ## Columns, placeholders, lists, calls -/

theorem closed_param (index : Nat) (v : Value) : Closed index [.param v] (.param index) where
  begins := ⟨_, _, rfl, rfl⟩
  run blanks frames := by
    have hindex : Nat.ofDigitChars 10 (Text.ofNat index) 0 = index := Nat.ofDigitChars_ten_toDigits
    have hstep : step ⟨frames, .operand⟩ ⟨blanks, ⟨.placeholder (placeholderIndex (Text.ofNat index)),
        '$' :: Text.ofNat index⟩⟩ = some ⟨frames, .behind (.param index)⟩ := by
      change some _ = _
      rw [List.drop_one, List.tail_cons, hindex]
    exact ⟨[], fun rest => run_of_step rfl hstep rest⟩

theorem closed_anything (index : Nat) : Closed index [anyText] anything where
  begins := ⟨_, _, rfl, rfl⟩
  run _ _ := ⟨[], fun _ => rfl⟩

/-- The names behind a dot, the last one being a column's. -/
theorem run_names (qualifier : List Identifier) (i : Identifier) (frames : List Frame) (names : List String)
    (index : Nat) (rest : List Fragment) :
    run ⟨frames, .dot names⟩ (scan [] index
        ((qualifier.flatMap fun j => [name j, symbol '.']) ++ name i :: rest)).pieces =
      run ⟨frames, .behind (.column (names ++ (qualifier ++ [i]).map (·.name)))⟩
        (scan [] index rest).pieces := by
  have hname : ∀ (j : Identifier) (ns : List String), step ⟨frames, .dot ns⟩ ⟨[], nameToken j⟩ =
      some ⟨frames, .behind (.column (ns ++ [j.name]))⟩ := by
    intro j ns
    change (nameToken j).name?.map (fun n => State.mk frames (.behind (.column (ns ++ [n])))) = _
    rw [name?_nameToken]
    rfl
  induction qualifier generalizing names with
  | nil => exact run_of_step rfl (hname i names) rest
  | cons j qualifier ih =>
    have happend : names ++ (j :: qualifier ++ [i]).map (·.name) =
        (names ++ [j.name]) ++ (qualifier ++ [i]).map (·.name) := by simp
    rw [happend, ← ih]
    exact run_of_step rfl (hname j names) _

theorem closed_column {c : ColumnRef} (h : c.isWildcard = false) (index : Nat) :
    Closed index c.fragments (.column (columnNames c)) := by
  obtain ⟨qualifier, column⟩ := c
  cases column with
  | none => cases h
  | some i =>
    have hname : ∀ (j : Identifier) (blanks : List Char) (frames : List Frame),
        step ⟨frames, .operand⟩ ⟨blanks, nameToken j⟩ = some ⟨frames, .behind (.column [j.name])⟩ := by
      intro j blanks frames
      change (nameToken j).name?.map (fun n => State.mk frames (.behind (.column [n]))) = _
      rw [name?_nameToken]
      rfl
    cases qualifier with
    | nil =>
      refine ⟨⟨_, _, rfl, rfl⟩, fun blanks frames => ⟨[], fun rest => ?_⟩⟩
      exact run_of_step rfl (hname i blanks frames) rest
    | cons j qualifier =>
      refine ⟨⟨_, _, rfl, rfl⟩, fun blanks frames => ⟨[], fun rest => ?_⟩⟩
      have hindex : (ColumnRef.fragments ⟨j :: qualifier, some i⟩).foldl next index = index := by
        rw [foldl_next, values_column]
        rfl
      have hfragments : ColumnRef.fragments ⟨j :: qualifier, some i⟩ ++ rest = name j :: symbol '.' ::
          ((qualifier.flatMap fun j => [name j, symbol '.']) ++ name i :: rest) := by
        simp [ColumnRef.fragments]
      rw [hindex, hfragments, run_of_step rfl (hname j blanks frames)]
      exact run_names qualifier i frames [j.name] index rest

/-- The items of a list up to its end. -/
theorem run_items {os : List Operand} (hne : os ≠ [])
    (h : ∀ o ∈ os, ∀ index, Closed index o.fragments (operandExpr index o)) (opening : Opening)
    (frames : List Frame) (done : List Expr) (blanks : List Char) (index : Nat) (rest : List Fragment) :
    run ⟨.items opening done :: frames, .operand⟩
        (scan blanks index (commaList (os.map (·.fragments)) ++ symbol ')' :: rest)).pieces =
      run ⟨frames, .behind (opening.close (done ++ operandExprs index os))⟩
        (scan [] ((commaList (os.map (·.fragments))).foldl next index) rest).pieces := by
  -- on the items left, with those that are done
  induction os generalizing done blanks index with
  | nil => exact absurd rfl hne
  | cons o os ih =>
    obtain ⟨blanks', hrun⟩ := (h o (by simp) index).run blanks (.items opening done :: frames)
    cases os with
    | nil =>
      rw [List.map_singleton, commaList_singleton, hrun]
      exact run_of_step rfl rfl rest
    | cons o' os =>
      have ih' := ih (by simp) (fun x hx => h x (List.mem_cons_of_mem o hx)) (done ++ [operandExpr index o])
        [' '] (o.fragments.foldl next index)
      have hdone : done ++ operandExprs index (o :: o' :: os) =
          (done ++ [operandExpr index o]) ++ operandExprs (o.fragments.foldl next index) (o' :: os) := by
        simp [operandExprs]
      rw [List.map_cons, List.map_cons, commaList_cons_cons, hdone, List.append_assoc, hrun,
        List.foldl_append]
      refine Eq.trans ?_ ih'
      exact run_of_step rfl rfl _

theorem reads_member {index : Nat} {fs : List Fragment} {a : Expr} (negated : Bool) {os : List Operand}
    (hne : os ≠ []) (h : ∀ o ∈ os, ∀ index, Closed index o.fragments (operandExpr index o))
    (ha : Closed index fs a) :
    Reads rangeBinding index
      (Predicate.joined fs (if negated then ["NOT", "IN"] else ["IN"]) (Predicate.listFragments os))
      (.member negated a (operandExprs (fs.foldl next index) os)) := by
  have hitems := run_items hne h
  have hlist : ∀ frames e blanks, ∃ blanks', ∀ rest,
      run ⟨frames, .list negated e⟩
          (scan blanks (fs.foldl next index) (Predicate.listFragments os ++ rest)).pieces =
        run ⟨frames, .behind (.member negated e (operandExprs (fs.foldl next index) os))⟩
          (scan blanks' ((Predicate.listFragments os).foldl next (fs.foldl next index)) rest).pieces := by
    intro frames e blanks
    refine ⟨[], fun rest => ?_⟩
    rw [foldl_next (Predicate.listFragments os), values_list, ← foldl_next, Predicate.listFragments,
      List.append_assoc]
    exact (run_of_step rfl rfl _).trans (hitems (.member negated e) frames [] [] _ rest)
  -- the keywords close the operand in front of them; `hlist` goes on from there
  rw [Predicate.joined, List.append_assoc]
  refine reads_behind ha (.member negated · _) fun frames e blanks => ?_
  cases negated with
  | false => exact hlist (reduce rangeBinding frames e).1 (reduce rangeBinding frames e).2 [' ']
  | true => exact hlist (reduce rangeBinding frames e).1 (reduce rangeBinding frames e).2 [' ']

theorem closed_call (function : String) {os : List Operand} (hne : os ≠ [])
    (h : ∀ o ∈ os, ∀ index, Closed index o.fragments (operandExpr index o)) (index : Nat) :
    Closed index (call function (os.map (·.fragments)))
      (.call (functionName function) (operandExprs index os)) where
  begins := ⟨_, _, rfl, rfl⟩
  run blanks frames := by
    refine ⟨[], fun rest => ?_⟩
    rw [foldl_next, values_call, ← foldl_next, call, List.append_assoc]
    exact (run_of_step rfl rfl _).trans
      ((run_of_step rfl rfl _).trans (run_items hne h (.call _) frames [] [] index rest))

/-! ## Operands and predicates -/

theorem closed_operand {o : Operand} (h : isSingle o = true) (index : Nat) :
    Closed index o.fragments (operandExpr index o) := by
  cases o with
  | column c => exact closed_column (by simpa [isSingle] using h) index
  | param v => exact closed_param index v
  | geometry wkt srid =>
    refine closed_call "ST_GeomFromText" (List.cons_ne_nil (.param (.text wkt)) [.param (.int srid)]) ?_ index
    intro o ho index
    rcases List.mem_pair.1 ho with rfl | rfl <;> exact closed_param index _

theorem closed_operands {os : List Operand} (h : os.all isSingle = true) :
    ∀ o ∈ os, ∀ index, Closed index o.fragments (operandExpr index o) := fun o ho index =>
  closed_operand (List.all_eq_true.1 h o ho) index

theorem reads_concat {m index : Nat} {fs gs : List Fragment} {a b : Expr} (ha : Reads m index fs a)
    (hm : Binary.concat.binding ≤ m) (hb : Closed (fs.foldl next index) gs b) :
    Reads Binary.concat.binding index (fs ++ Predicate.concatenation ++ gs) (.binary .concat a b) := by
  have h := reads_binary writes_concat ha hm (hb.reads 7) (Nat.lt_succ_self _)
  simpa [Predicate.concatenation] using h

theorem reads_textMatch (m : TextMatch) {index : Nat} {fs gs : List Fragment} {a b : Expr}
    (ha : Closed index fs a) (hb : Closed (fs.foldl next index) gs b) :
    Reads rangeBinding index (Predicate.textMatchFragments m fs gs) (matchExpr m a b) := by
  have hmatch : ∀ {ops : List Fragment} {negated anyCase : Bool} {hs : List Fragment} {c : Expr},
      Writes (.like negated anyCase) ops → Reads Binary.concat.binding (fs.foldl next index) hs c →
      Reads rangeBinding index (fs ++ blank :: ops ++ blank :: hs) (.binary (.like negated anyCase) a c) :=
    fun hops hc => reads_binary hops (ha.reads _) (Nat.le_refl _) hc (Nat.lt_succ_self _)
  have hany : ∀ i, Closed i [anyText] anything := closed_anything
  -- `'%' ||` in front of the text
  have hfront := reads_concat ((hany (fs.foldl next index)).reads _) (Nat.le_refl _) hb
  cases m with
  | like => exact hmatch writes_like (hb.reads _)
  | likeAnyCase => exact hmatch writes_ilike (hb.reads _)
  | notLike => exact hmatch writes_notLike (hb.reads _)
  | startsWith => exact hmatch writes_like (reads_concat (hb.reads _) (Nat.le_refl _) (hany _))
  | endsWith => exact hmatch writes_like hfront
  | contains => exact hmatch writes_like (reads_concat hfront (Nat.le_refl _) (hany _))

theorem closed_joined {o : Binary} {word : String} (hop : Writes o (words [word]))
    (ho : o.binding < testBinding) {index : Nat} {fs gs : List Fragment} {a b : Expr}
    (ha : Reads testBinding index fs a) (hb : Reads testBinding (fs.foldl next index) gs b) :
    Closed index (symbol '(' :: Predicate.joined fs [word] gs ++ [symbol ')']) (.binary o a b) :=
  closed_group (reads_binary hop ha (Nat.le_of_lt ho) hb ho)

/-- A predicate is read as its expression, next to `AND`, `OR` and parentheses. -/
theorem reads_predicate {p : Predicate} (h : isReadable p = true) (index : Nat) :
    Reads testBinding index p.fragments (predicateExpr index p) := by
  -- the parts of a connective stand in its parentheses and are read as they are alone
  induction p generalizing index with
  | compare c a b =>
    simp only [isReadable, List.all_cons, Bool.and_eq_true] at h
    have hread := reads_binary (writes_compare c) ((closed_operand h.1 index).reads _) (Nat.le_refl _)
      ((closed_operand h.2.1 _).reads _) (Nat.lt_succ_self _)
    exact hread.mono (Nat.le_succ testBinding)
  | isNull a => exact reads_isNull (closed_operand h index)
  | isNotNull a => exact reads_isNotNull (closed_operand h index)
  | member a items =>
    simp only [isReadable, Bool.and_eq_true, Bool.not_eq_true', List.isEmpty_eq_false_iff] at h
    exact (reads_member false h.1.2 (closed_operands h.2) (closed_operand h.1.1 index)).mono (by decide)
  | notMember a items =>
    simp only [isReadable, Bool.and_eq_true, Bool.not_eq_true', List.isEmpty_eq_false_iff] at h
    exact (reads_member true h.1.2 (closed_operands h.2) (closed_operand h.1.1 index)).mono (by decide)
  | between a low high =>
    simp only [isReadable, List.all_cons, Bool.and_eq_true] at h
    exact (reads_between false (closed_operand h.1 index) (closed_operand h.2.1 _)
      (closed_operand h.2.2.1 _)).mono (by decide)
  | notBetween a low high =>
    simp only [isReadable, List.all_cons, Bool.and_eq_true] at h
    exact (reads_between true (closed_operand h.1 index) (closed_operand h.2.1 _)
      (closed_operand h.2.2.1 _)).mono (by decide)
  | textMatch m a b =>
    simp only [isReadable, List.all_cons, Bool.and_eq_true] at h
    exact (reads_textMatch m (closed_operand h.1 index) (closed_operand h.2.1 _)).mono (by decide)
  | spatial r a b =>
    exact (closed_call r.function (List.cons_ne_nil a [b]) (closed_operands h) index).reads _
  | withinDistance a b distance =>
    exact (closed_call "ST_DWithin" (List.cons_ne_nil a [b, distance]) (closed_operands h) index).reads _
  | and p q ihp ihq =>
    rw [isReadable, Bool.and_eq_true] at h
    exact (closed_joined writes_and (by decide) (ihp h.1 index) (ihq h.2 _)).reads _
  | or p q ihp ihq =>
    rw [isReadable, Bool.and_eq_true] at h
    exact (closed_joined writes_or (by decide) (ihp h.1 index) (ihq h.2 _)).reads _

theorem isKeywordText_expressionWords : ∀ w ∈ expressionWords, isKeywordText w.toList = true := by
  decide

/-- The text of a predicate is read as its expression. -/
theorem readExpr_predicate {p : Predicate} (h : isReadable p = true) (index : Nat) :
    readExpr (String.ofList (texts index p.fragments)) = some (predicateExpr index p) := by
  have hexpr := expression_predicate p
  have hlegible : Legible expressionWords p.fragments := by
    have hapart := hexpr.apart [] apart_nil rfl
    rw [List.append_nil] at hapart
    exact ⟨hexpr.known, hapart⟩
  obtain ⟨frames, e, blanks, hreduce, hrun⟩ := (reads_predicate h index).run [] [] trivial
  have hrun' := hrun []
  rw [List.append_nil] at hrun'
  have hfinish : finish ⟨frames, .behind e⟩ = some (predicateExpr index p) := by
    rw [finish, hreduce 0 (Nat.zero_le _)]
    rfl
  rw [readExpr, Scan.ofString, String.toList_ofList, ofChars_texts isKeywordText_expressionWords hlegible,
    hrun']
  exact hfinish

/-- Without parentheses, `AND` is joined before `OR`, behind the range that has an `AND` of its own. -/
example : readExpr "\"a\" = $1 OR \"b\" BETWEEN $2 AND $3 AND \"c\" IS NULL" =
    some (.binary .or (.binary (.compare .equal) (.column ["a"]) (.param 1))
      (.binary .and (.between false (.column ["b"]) (.param 2) (.param 3))
        (.isNull false (.column ["c"])))) := by
  with_unfolding_all rfl

end SpatialQuery.Meaning
