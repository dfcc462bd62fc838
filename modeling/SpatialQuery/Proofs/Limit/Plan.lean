import SpatialQuery.Proofs.Limit.Rewritten
import SpatialQuery.Proofs.Limit.First
import SpatialQuery.Proofs.Query.Embedding

/-!
How a statement is rewritten, without its text. A rewrite puts something in front of the statement and behind it, and a
number in the place of one piece (`boundRows_eq`). What it does is not decided by the texts of literals, and it keeps
each of them where it stands (`boundRows_literal`).
-/

namespace SpatialQuery.RowLimit

open Token Validation Query

/-! ## Plans -/

/-- What is done to the pieces of a statement: `count` is a place among them and the number that is put there. -/
structure Plan where
  front : List Char
  count : Option (Nat × Nat)
  behind : List Char
  change : Option LimitChange

namespace Plan

def kept : Plan :=
  ⟨[], none, [], none⟩

def appended (limit : Nat) : Plan :=
  ⟨[], none, " LIMIT ".toList ++ Text.ofNat limit, some (.appended limit)⟩

def bounded (limit : Nat) : Plan :=
  ⟨"SELECT * FROM (".toList, none, ") AS ".toList ++ (Text.quote '"' "geoview_limited".toList ++
    (" LIMIT ".toList ++ Text.ofNat limit)), some (.bounded limit)⟩

def recount (place limit : Nat) (change : LimitChange) : Plan :=
  ⟨[], some (place, limit), [], some change⟩

end Plan

def recounted (ps : List Piece) : Option (Nat × Nat) → List Piece
  | none => ps
  | some (place, n) => ps.modify place fun p => ⟨p.blanks, countToken n⟩

def Plan.text (plan : Plan) (ps : List Piece) : List Char :=
  plan.front ++ statementText (recounted ps plan.count) ++ plan.behind

/-- The number that is written and the number that takes its place, if it is too large. -/
def lowering? (policy : Policy) (count : Token) : Option (Nat × Nat) :=
  match Text.readNat64 count.text, policy.maxLimit with
  | .ok n, some max => if max < n then some (n, max) else none
  | _, _ => none

/-- What a policy does to a statement with this clause. -/
def planOf (policy : Policy) : Option LimitClause → Plan
  | none => .appended policy.limitToAdd
  | some (.all before count _) => .recount before.length policy.limitToAdd
      (.replaced (String.ofList (Text.upperChars count.token.text)) policy.limitToAdd)
  | some .computed => .bounded policy.limitAround
  | some .singleRow => .kept
  | some (.literal before count _) =>
    match lowering? policy count.token with
    | some (n, max) => .recount before.length max (.lowered n max)
    | none => .kept

/-- The pieces around the count of a clause. -/
def around? : LimitClause → Option (List Piece × Piece × List Piece)
  | .all before count behind | .literal before count behind => some (before, count, behind)
  | _ => none

/-- A count stands in the statement, behind the keyword of its clause, and is no literal text. -/
theorem around_findLimit {ps before behind : List Piece} {count : Piece} {l : LimitClause}
    (h : findLimit 0 ps = some l) (hl : around? l = some (before, count, behind)) :
    ps = before ++ count :: behind ∧ before ≠ [] ∧ count.token.kind ≠ .stringLiteral := by
  rw [findLimit_eq] at h
  obtain ⟨c, hc, rfl⟩ := Option.map_eq_some_iff.1 h
  obtain ⟨rfl, -, hk, -⟩ := firstClause_spec hc
  cases hclause : clauseOf c.keyword c.behind with
  | all front n rest =>
    obtain ⟨rfl, hbehind, hword⟩ := clauseOf_all hclause
    rw [hclause] at hl
    obtain ⟨rfl, rfl, rfl⟩ : c.before ++ [c.keyword] = before ∧ n = count ∧ rest = behind := by
      simpa [under, around?] using hl
    refine ⟨by simp [hbehind], by simp, ?_⟩
    rw [Lexical.word_of_isAnyKeyword hword]
    nofun
  | literal front n rest =>
    obtain ⟨between, rfl, hbehind, hnum, -⟩ := clauseOf_literal hk hclause
    rw [hclause] at hl
    obtain ⟨rfl, rfl, rfl⟩ : c.before ++ c.keyword :: between = before ∧ n = count ∧ rest = behind := by
      simpa [under, around?] using hl
    refine ⟨by simp [hbehind], by simp, ?_⟩
    rw [show n.token.kind = .number from eq_of_beq hnum]
    nofun
  | singleRow => simp [hclause, under, around?] at hl
  | computed => simp [hclause, under, around?] at hl

theorem statementText_append {xs : List Piece} (h : xs ≠ []) (ys : List Piece) :
    statementText (xs ++ ys) = statementText xs ++ ys.flatMap Piece.text := by
  obtain ⟨x, xs, rfl⟩ := List.exists_cons_of_ne_nil h
  simp [statementText]

theorem text_recounted {before behind : List Piece} {count : Piece} (h : before ≠ []) (n : Nat) :
    statementText (recounted (before ++ count :: behind) (some (before.length, n))) =
      withCount before count behind n := by
  have hmodify : recounted (before ++ count :: behind) (some (before.length, n)) =
      before ++ ⟨count.blanks, countToken n⟩ :: behind := by
    simp [recounted, List.modify_eq_take_cons_drop]
  rw [hmodify, statementText_append h, withCount]
  simp [Piece.text, countToken]

theorem text_bounded (n : Nat) (ps : List Piece) :
    (Plan.bounded n).text ps = wrapped "geoview_limited" (statementText ps) n := by
  unfold Plan.text Plan.bounded wrapped
  simp only [recounted, List.append_assoc]

/-- The text to run is what the plan makes of the pieces. -/
theorem boundRows_eq (policy : Policy) (ps : List Piece) : boundRows policy ps =
    ((planOf policy (findLimit 0 ps)).text ps, (planOf policy (findLimit 0 ps)).change) := by
  have hkept : (statementText ps, none) = (Plan.kept.text ps, Plan.kept.change) := by
    simp only [Plan.text, Plan.kept, recounted, List.nil_append, List.append_nil]
  have hrecount : ∀ before count behind n change, ps = before ++ count :: behind → before ≠ [] →
      (withCount before count behind n, some change) =
        ((Plan.recount before.length n change).text ps, (Plan.recount before.length n change).change) := by
    intro before count behind n change hps hne
    simp only [hps, Plan.text, Plan.recount, text_recounted hne, List.nil_append, List.append_nil]
  unfold boundRows
  cases h : findLimit 0 ps with
  | none => simp only [planOf, Plan.text, Plan.appended, recounted, List.nil_append, List.append_assoc]
  | some l =>
    cases l with
    | all before count behind =>
      obtain ⟨hps, hne, -⟩ := around_findLimit h rfl
      exact hrecount before count behind _ _ hps hne
    | computed =>
      have htext := text_bounded policy.limitAround ps
      exact congrArg (·, some (LimitChange.bounded policy.limitAround)) htext.symm
    | singleRow => exact hkept
    | literal before count behind =>
      obtain ⟨hps, hne, -⟩ := around_findLimit h rfl
      simp only [planOf, lowering?]
      cases Text.readNat64 count.token.text with
      | error e => exact hkept
      | ok n =>
        cases policy.maxLimit with
        | none => exact hkept
        | some max =>
          dsimp only
          split
          · exact hrecount before count behind _ _ hps hne
          · exact hkept

/-- A plan puts its number in the place of the count. -/
theorem place_planOf {policy : Policy} {l : Option LimitClause} {place n : Nat}
    (h : (planOf policy l).count = some (place, n)) :
    ∃ c before count behind, l = some c ∧ around? c = some (before, count, behind) ∧ place = before.length := by
  cases l with
  | none => cases h
  | some c =>
    cases c with
    | all before count behind =>
      obtain ⟨rfl, -⟩ := Prod.mk.inj (Option.some.inj h)
      exact ⟨_, before, count, behind, rfl, rfl, rfl⟩
    | literal before count behind =>
      rw [planOf] at h
      cases hl : lowering? policy count.token with
      | none => simp [hl, Plan.kept] at h
      | some lowered =>
        rw [hl] at h
        obtain ⟨rfl, -⟩ := Prod.mk.inj (Option.some.inj h)
        exact ⟨_, before, count, behind, rfl, rfl, rfl⟩
    | singleRow => cases h
    | computed => cases h

/-! ## Literals -/

def mapClause (g : Piece → Piece) : LimitClause → LimitClause
  | .all before count behind => .all (before.map g) (g count) (behind.map g)
  | .literal before count behind => .literal (before.map g) (g count) (behind.map g)
  | .singleRow => .singleRow
  | .computed => .computed

/-! Pieces may get other blanks and, in literals, other texts. -/

section Faithful

variable {g : Piece → Piece} {f : Token → Token} (hf : Faithful f) (hg : ∀ p, (g p).token = f p.token)

include hf hg

theorem isPunct_map (p : Piece) (c : Char) : (g p).token.isPunct c = p.token.isPunct c := by
  rw [hg, hf.isPunct]

theorem isKeyword_map (p : Piece) (a : String) : (g p).token.isKeyword a = p.token.isKeyword a := by
  rw [hg, hf.isKeyword]

theorem isAnyKeyword_map (p : Piece) (ws : List String) : (g p).token.isAnyKeyword ws = p.token.isAnyKeyword ws := by
  rw [hg, hf.isAnyKeyword]

theorem isNumber_map (p : Piece) : (g p).token.isNumber = p.token.isNumber := by
  rw [isNumber, isNumber, hg, hf.kind]

theorem limitClause_map (p : Piece) (ps : List Piece) :
    limitClause (g p) (ps.map g) = mapClause g (limitClause p ps) := by
  cases ps with
  | nil => rfl
  | cons count behind =>
    have hends : endsCount (behind.map g) = endsCount behind := by
      cases behind with
      | nil => rfl
      | cons q behind => simp only [List.map_cons, endsCount, isAnyKeyword_map hf hg, isPunct_map hf hg]
    rw [List.map_cons, limitClause, limitClause, hends, isAnyKeyword_map hf hg, isNumber_map hf hg]
    split
    · rfl
    · split <;> rfl

theorem fetchClause_map (p : Piece) (ps : List Piece) :
    fetchClause (g p) (ps.map g) = mapClause g (fetchClause p ps) := by
  match ps with
  | [] => rfl
  | [first] => rfl
  | first :: count :: behind =>
    have hrow : (behind.map g).head?.any (·.token.isAnyKeyword ["row", "rows"]) =
        behind.head?.any (·.token.isAnyKeyword ["row", "rows"]) := by
      cases behind with
      | nil => rfl
      | cons q behind => exact isAnyKeyword_map hf hg q _
    rw [List.map_cons, List.map_cons, fetchClause, fetchClause, hrow, isNumber_map hf hg]
    simp only [isAnyKeyword_map hf hg]
    split
    · rfl
    · split <;> rfl

theorem findLimit_map (depth : Nat) (ps : List Piece) :
    findLimit depth (ps.map g) = (findLimit depth ps).map (mapClause g) := by
  induction ps generalizing depth with
  | nil => rfl
  | cons p ps ih =>
    have hcons : ∀ o : Option LimitClause, (o.map (mapClause g)).map (.cons (g p)) =
        (o.map (.cons p)).map (mapClause g) := by
      rintro (_ | _ | _ | _ | _) <;> rfl
    rw [List.map_cons, findLimit, findLimit, ih, ih, ih, limitClause_map hf hg, fetchClause_map hf hg,
      isPunct_map hf hg, isPunct_map hf hg, isKeyword_map hf hg, isKeyword_map hf hg, hcons, hcons, hcons]
    repeat' split
    all_goals rfl

/-- The plan does not depend on blanks and on the texts of literals: no count is one. -/
theorem planOf_map (policy : Policy) (ps : List Piece) :
    planOf policy (findLimit 0 (ps.map g)) = planOf policy (findLimit 0 ps) := by
  rw [findLimit_map hf hg]
  cases h : findLimit 0 ps with
  | none => rfl
  | some l =>
    cases l with
    | all before count behind =>
      obtain ⟨-, -, hcount⟩ := around_findLimit h rfl
      simp only [Option.map_some, mapClause, planOf, hg, List.length_map, hf.text _ hcount]
    | literal before count behind =>
      obtain ⟨-, -, hcount⟩ := around_findLimit h rfl
      simp only [Option.map_some, mapClause, planOf, lowering?, hg, List.length_map, hf.text _ hcount]
    | singleRow => rfl
    | computed => rfl

end Faithful

def mapToken (f : Token → Token) (p : Piece) : Piece :=
  ⟨p.blanks, f p.token⟩

theorem planOf_literal (policy : Policy) {t u : Token} (ht : t.kind = .stringLiteral) (hu : u.kind = .stringLiteral)
    (before : List Piece) (blanks : List Char) (behind : List Piece) :
    planOf policy (findLimit 0 (before ++ ⟨blanks, t⟩ :: behind)) =
      planOf policy (findLimit 0 (before ++ ⟨blanks, u⟩ :: behind)) := by
  have hemptied : (before ++ ⟨blanks, t⟩ :: behind).map (mapToken emptied) =
      (before ++ ⟨blanks, u⟩ :: behind).map (mapToken emptied) := by
    simp only [List.map_append, List.map_cons, mapToken, emptied_literal ht, emptied_literal hu]
  have hmap := planOf_map faithful_emptied (g := mapToken emptied) (fun _ => rfl) policy
  rw [← hmap, hemptied, hmap]

/-- What is done at another place is done in front of a piece or behind it. -/
theorem modify_append_cons {α : Type} (g : α → α) {xs ys : List α} {place : Nat} (h : place ≠ xs.length) :
    ∃ xs' ys', xs'.length = xs.length ∧ ∀ x, (xs ++ x :: ys).modify place g = xs' ++ x :: ys' := by
  induction xs generalizing place with
  | nil =>
    obtain ⟨n, rfl⟩ := Nat.exists_eq_succ_of_ne_zero h
    exact ⟨[], ys.modify n g, rfl, fun x => rfl⟩
  | cons y xs ih =>
    cases place with
    | zero => exact ⟨g y :: xs, ys, rfl, fun x => rfl⟩
    | succ n =>
      have hn : n ≠ xs.length := by simpa using h
      obtain ⟨xs', ys', hlength, hmodify⟩ := ih hn
      exact ⟨y :: xs', ys', by simp [hlength], fun x => by simp [hmodify]⟩

/-- A literal behind the first token stands in the text to run as it stood in the statement. All else is the same for
every literal. -/
theorem boundRows_literal (policy : Policy) {before : List Piece} (hne : before ≠ []) (blanks : List Char)
    (behind : List Piece) : ∃ front rest change, ∀ t : Token, t.kind = .stringLiteral →
      boundRows policy (before ++ ⟨blanks, t⟩ :: behind) = (front ++ t.text ++ rest, change) := by
  let plan := planOf policy (findLimit 0 (before ++ ⟨blanks, ⟨.stringLiteral, []⟩⟩ :: behind))
  -- no count stands in the place of the literal
  have hplace : ∀ place n, plan.count = some (place, n) → place ≠ before.length := by
    intro place n hcount hplace
    obtain ⟨c, before', count, behind', hc, haround, rfl⟩ := place_planOf hcount
    obtain ⟨hpieces, -, hkind⟩ := around_findLimit hc haround
    obtain ⟨rfl, hrest⟩ := List.append_inj hpieces hplace.symm
    rw [← (List.cons.inj hrest).1] at hkind
    exact hkind rfl
  obtain ⟨before', behind', hlength, hpieces⟩ : ∃ before' behind', before'.length = before.length ∧
      ∀ p, recounted (before ++ p :: behind) plan.count = before' ++ p :: behind' := by
    cases hcount : plan.count with
    | none => exact ⟨before, behind, rfl, fun p => rfl⟩
    | some count => exact modify_append_cons _ (hplace count.1 count.2 hcount)
  have hne' : before' ≠ [] := by
    rw [← List.length_pos_iff] at hne ⊢
    omega
  refine ⟨plan.front ++ (statementText before' ++ blanks), behind'.flatMap Piece.text ++ plan.behind, plan.change,
    fun t ht => ?_⟩
  have hplan : planOf policy (findLimit 0 (before ++ ⟨blanks, t⟩ :: behind)) = plan :=
    planOf_literal policy ht rfl before blanks behind
  rw [boundRows_eq, hplan, Plan.text, hpieces, statementText_append hne']
  simp [Piece.text]

end SpatialQuery.RowLimit
