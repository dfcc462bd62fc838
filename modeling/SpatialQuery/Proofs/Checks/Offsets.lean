import SpatialQuery.Proofs.Lexical.Tiling
import SpatialQuery.Proofs.Limit.Plan
import SpatialQuery.Proofs.Limit.Statement
import SpatialQuery.View.Template

/-!
What is done at the offsets of tokens: the statement is a slice of the text, a row limit is put between two offsets in
it, and the text of a view is copied between its placeholders. None of these slices leaves the text or begins inside of
a character, and no difference of offsets is negative (`tokens_tile`).
-/

namespace SpatialQuery.Bytewise

open Token Text Lexical Validation RowLimit

/-! ## The statement and its limit -/

/-- The token without the blanks in front of it. -/
def Spanned.piece (t : Spanned) : Piece :=
  ⟨[], t.token⟩

/-- The items whose tokens are those of the only statement. -/
def select {α : Type} (token : α → Token) (start : α → Nat) (unclosed? : Option (Construct × Nat)) (xs : List α) :
    Except Rejection (List α) :=
  match xs.dropWhile fun x => isOutside (token x) with
  | [] => .error .empty
  | verb :: rest =>
    if !(token verb).isAnyKeyword ["select", "with"] then
      .error (.notSelect (String.ofList (upperChars (token verb).text)))
    else
      match unclosed? with
      | some (what, offset) => .error (.unclosed what offset)
      | none =>
        match (verb :: rest).find? fun x => (token x).isComment with
        | some x => .error (.comment (start x))
        | none =>
          match (verb :: rest).dropWhile fun x => !(token x).isPunct ';' with
          | _ :: _ :: _ => .error .stacked
          | _ => .ok ((verb :: rest).takeWhile fun x => !(token x).isPunct ';')

/-- The tokens of the only statement. -/
def statementTokens (r : Scanned) : Except Rejection (List Spanned) :=
  select Spanned.token Spanned.start r.unclosed? r.tokens

/-- A number in the place of a token, whose offsets count from the beginning of the statement. -/
def recountAt? (statement : String) (start : Nat) (ts : List Spanned) : Option (Nat × Nat) → Option String
  | none => some statement
  | some (place, n) => do
    let t ← ts[place]?
    replaceRange? statement (← distance? start t.start) (← distance? start t.stop) (String.ofList (ofNat n))

/-- The statement with these tokens as it may be run. -/
def boundRowsAt? (policy : Policy) (sql : String) (ts : List Spanned) : Option (String × Option LimitChange) := do
  let first ← ts.head?
  let last ← ts.getLast?
  let statement ← slice? sql first.start last.stop
  let plan := planOf policy (findLimit 0 (ts.map Spanned.piece))
  let text ← recountAt? statement first.start ts plan.count
  return (String.ofList plan.front ++ text ++ String.ofList plan.behind, plan.change)

/-- The validation of a text that is scanned by its bytes. -/
def assessAt? (policy : Policy) (sql : String) (supplied : Option Nat) :
    Option (Except Rejection (String × Option LimitChange)) := do
  let r ← scan? sql
  match statementTokens r with
  | .error reason => some (.error reason)
  | .ok ts =>
    match checkTokens policy (ts.map Spanned.token) supplied with
    | .error reason => some (.error reason)
    | .ok _ => (boundRowsAt? policy sql ts).map .ok

/-! ## The text of a view -/

/-- The text from an offset on with references in the place of placeholders. -/
def fillFrom? (sql : String) (params : List ViewParameter) (copied : Nat) :
    List Spanned → Option (Except View.Flaw String)
  | [] => (slice? sql copied sql.utf8ByteSize).map .ok
  | t :: ts =>
    match View.tokenText params t.token with
    | .error flaw => some (.error flaw)
    | .ok reference =>
      match t.token.placeholder? with
      | none => fillFrom? sql params copied ts
      | some _ => do
        let before ← slice? sql copied t.start
        let rest ← fillFrom? sql params t.stop ts
        return rest.map (before ++ String.ofList reference ++ ·)

/-- The text of a view, made of a text that is scanned by its bytes. -/
def templateAt? (sql : String) (values : List Value) : Option (Except View.Flaw (String × List ViewParameter)) := do
  let r ← scan? sql
  match r.unclosed? with
  | some (what, offset) => some (.error (.unclosed what offset))
  | none =>
    match View.parametersFrom 1 values with
    | .error flaw => some (.error flaw)
    | .ok params => (fillFrom? sql params 0 r.tokens).map (·.map (·, params))

/-! ## Offsets of pieces -/

/-- The bytes of pieces. -/
def extent (ps : List Piece) : Nat :=
  Scan.byteSize (ps.flatMap Piece.text)

theorem length_spannedFrom (offset : Nat) (ps : List Piece) : (spannedFrom offset ps).length = ps.length := by
  induction ps generalizing offset with
  | nil => rfl
  | cons p ps ih => rw [spannedFrom, List.length_cons, ih, List.length_cons]

theorem extent_cons (p : Piece) (ps : List Piece) :
    extent (p :: ps) = Scan.byteSize p.blanks + Scan.byteSize p.token.text + extent ps := by
  rw [extent, List.flatMap_cons, Piece.text, byteSize_append, byteSize_append]
  rfl

theorem spannedFrom_append (offset : Nat) (ps qs : List Piece) :
    spannedFrom offset (ps ++ qs) = spannedFrom offset ps ++ spannedFrom (offset + extent ps) qs := by
  induction ps generalizing offset with
  | nil => rfl
  | cons p ps ih =>
    rw [List.cons_append, spannedFrom, ih, spannedFrom, List.cons_append, extent_cons, ← Nat.add_assoc, ← Nat.add_assoc]

def spannedAt (q : Piece × Nat) : Spanned :=
  ⟨q.1.token, q.2, q.2 + Scan.byteSize q.1.token.text⟩

theorem map_spannedAt (offset : Nat) (ps : List Piece) :
    (ps.zip ((Scan.spans offset ps).map Prod.fst)).map spannedAt = spannedFrom offset ps := by
  induction ps generalizing offset with
  | nil => rfl
  | cons p ps ih =>
    rw [spannedFrom, ← ih]
    rfl

theorem map_spannedAt_between {s : Scan} {front found behind : List (Piece × Nat)}
    (h : s.located = front ++ (found ++ behind)) :
    found.map spannedAt = spannedFrom (extent (front.map Prod.fst)) (found.map Prod.fst) := by
  have hpieces : s.pieces = front.map Prod.fst ++ (found.map Prod.fst ++ behind.map Prod.fst) := by
    rw [← map_fst_located s, h, List.map_append, List.map_append]
  have hspans := map_spannedAt 0 s.pieces
  rw [← Scan.located, h, hpieces, spannedFrom_append, spannedFrom_append, List.map_append, List.map_append,
    Nat.zero_add] at hspans
  have hrest := (List.append_inj hspans (by rw [length_spannedFrom, List.length_map, List.length_map])).2
  exact (List.append_inj hrest (by rw [length_spannedFrom, List.length_map, List.length_map])).1

theorem select_map {α β : Type} (f : α → β) (token : β → Token) (start : β → Nat)
    (unclosed? : Option (Construct × Nat)) (xs : List α) :
    select token start unclosed? (xs.map f) =
      (select (token ∘ f) (start ∘ f) unclosed? xs).map (List.map f) := by
  simp only [select, List.dropWhile_map, Function.comp_def]
  cases xs.dropWhile fun x => isOutside (token (f x)) with
  | nil => rfl
  | cons verb rest =>
    simp only [List.map_cons]
    rw [← List.map_cons, List.find?_map, List.dropWhile_map, List.takeWhile_map]
    simp only [Function.comp_def]
    split
    · rfl
    cases unclosed? with
    | some u => rfl
    | none =>
      dsimp only
      cases (verb :: rest).find? fun x => (token (f x)).isComment with
      | some x => rfl
      | none =>
        dsimp only [Option.map_none]
        rcases (verb :: rest).dropWhile fun x => !(token (f x)).isPunct ';' with _ | ⟨_, _ | ⟨_, _⟩⟩ <;> rfl

theorem statement_eq_select (s : Scan) :
    statement s = (select (fun q => q.1.token) Prod.snd s.unclosed? s.located).map (List.map Prod.fst) := by
  have houtside : (fun q : Piece × Nat => q.1.token.isComment || q.1.token.isPunct ';') =
      fun q => isOutside q.1.token := rfl
  simp only [statement, select, houtside]
  cases s.located.dropWhile fun q => isOutside q.1.token with
  | nil => rfl
  | cons q rest =>
    obtain ⟨verb, start⟩ := q
    dsimp only
    rw [List.dropWhile_map, List.takeWhile_map]
    split
    · rfl
    cases s.unclosed? with
    | some u => rfl
    | none =>
      dsimp only
      cases ((verb, start) :: rest).find? fun q => q.1.token.isComment with
      | some q => rfl
      | none =>
        dsimp only [Function.comp_def]
        generalize List.dropWhile _ ((verb, start) :: rest) = behind
        rcases behind with _ | ⟨_, _ | ⟨_, _⟩⟩ <;> rfl

/-- What is selected stands in one piece. -/
theorem select_split {α : Type} {token : α → Token} {start : α → Nat} {unclosed? : Option (Construct × Nat)}
    {xs found : List α} (h : select token start unclosed? xs = .ok found) :
    ∃ front behind, xs = front ++ (found ++ behind) := by
  rw [select] at h
  split at h
  · cases h
  rename_i verb rest hdrop
  split at h
  · cases h
  split at h
  · cases h
  split at h
  · cases h
  split at h
  · cases h
  obtain rfl := Except.ok.inj h
  refine ⟨xs.takeWhile fun x => isOutside (token x), (verb :: rest).dropWhile fun x => !(token x).isPunct ';', ?_⟩
  rw [List.takeWhile_append_dropWhile, ← hdrop, List.takeWhile_append_dropWhile]

/-- The tokens of the statement are those of its pieces. -/
theorem statementTokens_eq (s : Scan) :
    (∃ reason, statement s = .error reason ∧ statementTokens (scanned s) = .error reason) ∨
      ∃ before pieces behind, s.pieces = before ++ (pieces ++ behind) ∧ statement s = .ok pieces ∧
        statementTokens (scanned s) = .ok (spannedFrom (extent before) pieces) := by
  have htokens : statementTokens (scanned s) =
      (select (fun q => q.1.token) Prod.snd s.unclosed? s.located).map (List.map spannedAt) := by
    rw [statementTokens, scanned, ← map_spannedAt, ← Scan.located]
    exact select_map spannedAt _ _ _ _
  rw [htokens, statement_eq_select]
  cases h : select (fun q => q.1.token) Prod.snd s.unclosed? s.located with
  | error reason => exact .inl ⟨reason, rfl, rfl⟩
  | ok found =>
    obtain ⟨front, behind, hlocated⟩ := select_split h
    refine .inr ⟨front.map Prod.fst, found.map Prod.fst, behind.map Prod.fst, ?_, rfl, ?_⟩
    · rw [← map_fst_located s, hlocated, List.map_append, List.map_append]
    · exact congrArg Except.ok (map_spannedAt_between hlocated)

/-! ## Limits -/

theorem distance?_add (start width : Nat) : distance? start (start + width) = some width := by
  rw [distance?, if_pos (Nat.le_add_right _ _), Nat.add_sub_cancel_left]

/-- The blanks in front of a statement do not belong to it. -/
theorem flatMap_text_cons (p : Piece) (ps : List Piece) :
    (p :: ps).flatMap Piece.text = p.blanks ++ statementText (p :: ps) := by
  rw [List.flatMap_cons, Piece.text, statementText, List.append_assoc]

theorem extent_eq (p : Piece) (ps : List Piece) :
    extent (p :: ps) = Scan.byteSize p.blanks + Scan.byteSize (statementText (p :: ps)) := by
  rw [extent, flatMap_text_cons, byteSize_append]

theorem map_piece_spannedFrom (offset : Nat) (ps : List Piece) :
    (spannedFrom offset ps).map Spanned.piece = ps.map fun p => ⟨[], p.token⟩ := by
  induction ps generalizing offset with
  | nil => rfl
  | cons p ps ih => rw [spannedFrom, List.map_cons, ih, List.map_cons]; rfl

theorem map_token_spannedFrom (offset : Nat) (ps : List Piece) :
    (spannedFrom offset ps).map Spanned.token = ps.map Piece.token := by
  induction ps generalizing offset with
  | nil => rfl
  | cons p ps ih => rw [spannedFrom, List.map_cons, ih, List.map_cons]

theorem getLast?_spannedFrom (offset : Nat) {ps : List Piece} (hne : ps ≠ []) :
    ∃ t, (spannedFrom offset ps).getLast? = some t ∧ t.stop = offset + extent ps := by
  rcases List.eq_nil_or_concat ps with rfl | ⟨front, p, rfl⟩
  · exact absurd rfl hne
  · rw [List.concat_eq_append, spannedFrom_append]
    refine ⟨_, List.getLast?_concat, ?_⟩
    rw [extent, extent, List.flatMap_append, byteSize_append]
    simp [Piece.text, byteSize_append, Nat.add_assoc]

theorem recountAt?_eq {offset : Nat} {p : Piece} {ps : List Piece} {count : Option (Nat × Nat)}
    (hcount : ∀ place n, count = some (place, n) →
      ∃ before c behind, p :: ps = before ++ c :: behind ∧ before ≠ [] ∧ place = before.length) :
    recountAt? (String.ofList (statementText (p :: ps))) (offset + Scan.byteSize p.blanks)
      (spannedFrom offset (p :: ps)) count = some (String.ofList (statementText (recounted (p :: ps) count))) := by
  cases count with
  | none => rfl
  | some pair =>
    obtain ⟨place, n⟩ := pair
    obtain ⟨before, c, behind, hps, hne, rfl⟩ := hcount place n rfl
    obtain ⟨before, rfl⟩ : ∃ qs, before = p :: qs := by
      cases before with
      | nil => exact absurd rfl hne
      | cons q qs => exact ⟨qs, by rw [(List.cons.inj hps).1]⟩
    -- the count is found by its place among the tokens, and replaced by its offsets
    let kept := statementText (p :: before) ++ c.blanks
    let start := offset + Scan.byteSize p.blanks
    have htoken : (spannedFrom offset (p :: before ++ c :: behind))[(p :: before).length]? =
        some ⟨c.token, start + Scan.byteSize kept, start + (Scan.byteSize kept + Scan.byteSize c.token.text)⟩ := by
      have hstart : offset + extent (p :: before) + Scan.byteSize c.blanks = start + Scan.byteSize kept := by
        rw [extent_eq, byteSize_append, ← Nat.add_assoc, Nat.add_assoc]
      rw [spannedFrom_append, ← length_spannedFrom offset, List.getElem?_append_right (Nat.le_refl _), Nat.sub_self,
        spannedFrom, hstart, Nat.add_assoc start]
      rfl
    have htext : statementText (p :: before ++ c :: behind) =
        kept ++ (c.token.text ++ behind.flatMap Piece.text) := by
      rw [statementText_append hne, List.flatMap_cons, Piece.text]
      simp [kept]
    rw [hps, text_recounted hne, htext]
    simp only [recountAt?, htoken, bind, Option.bind_some, start, distance?_add, replaceRange?_append]
    simp [withCount, kept]

theorem boundRowsAt?_eq (policy : Policy) {sql : String} {offset : Nat} {ps : List Piece} {rest : List Char}
    (hne : ps ≠ []) (h : Ahead sql offset (ps.flatMap Piece.text ++ rest)) :
    boundRowsAt? policy sql (spannedFrom offset ps) =
      some (String.ofList (boundRows policy ps).1, (boundRows policy ps).2) := by
  obtain ⟨p, ps, rfl⟩ := List.exists_cons_of_ne_nil hne
  obtain ⟨last, hlast, hstop⟩ := getLast?_spannedFrom offset hne
  rw [flatMap_text_cons, List.append_assoc] at h
  -- The plan depends on the tokens only, not on the blanks in front of them, which the spans leave out.
  have hplan : planOf policy (findLimit 0 ((spannedFrom offset (p :: ps)).map Spanned.piece)) =
      planOf policy (findLimit 0 (p :: ps)) := by
    rw [map_piece_spannedFrom]
    exact planOf_map Query.faithful_id (g := fun q => ⟨[], q.token⟩) (fun _ => rfl) policy (p :: ps)
  have hcount : ∀ place n, (planOf policy (findLimit 0 (p :: ps))).count = some (place, n) →
      ∃ before c behind, p :: ps = before ++ c :: behind ∧ before ≠ [] ∧ place = before.length := by
    intro place n hplace
    obtain ⟨clause, before, c, behind, hclause, haround, rfl⟩ := place_planOf hplace
    obtain ⟨hps, hbefore, -⟩ := around_findLimit hclause haround
    exact ⟨before, c, behind, hps, hbefore, rfl⟩
  have hslice := h.append.slice
  rw [Nat.add_assoc, ← extent_eq, ← hstop] at hslice
  rw [boundRows_eq]
  have hfirst : (spannedFrom offset (p :: ps)).head? = some ⟨p.token, offset + Scan.byteSize p.blanks,
      offset + Scan.byteSize p.blanks + Scan.byteSize p.token.text⟩ := rfl
  simp only [boundRowsAt?, hfirst, hlast, hplan, bind, Option.bind_some, hslice, recountAt?_eq hcount]
  rw [Plan.text, String.ofList_append, String.ofList_append]
  rfl

/-- The text ahead of pieces of a scan. -/
theorem ahead_extent {sql : String} {before ps : List Piece} (h : (Scan.ofString sql).pieces = before ++ ps) :
    Ahead sql (extent before) (ps.flatMap Piece.text ++ (Scan.ofString sql).trailing) := by
  have htext := Scan.text_ofChars sql.toList
  have hahead := ahead_zero sql
  rw [← Scan.ofString, Scan.text, h, List.flatMap_append, List.append_assoc] at htext
  rw [← htext] at hahead
  have happend := hahead.append
  rwa [Nat.zero_add] at happend

theorem assessAt?_eq (policy : Policy) (sql : String) (supplied : Option Nat) :
    assessAt? policy sql supplied = some (assess policy sql supplied) := by
  simp only [assessAt?, scan?_eq, bind, Option.bind_some]
  rcases statementTokens_eq (Scan.ofString sql) with ⟨reason, hs, htokens⟩ | ⟨before, ps, behind, hps, hs, htokens⟩
  · rw [htokens, assess, hs]
    rfl
  · obtain ⟨-, -, -, -, -, ⟨verb, hverb, -⟩, -⟩ := statement_spec hs
    have hne : ps ≠ [] := by
      rintro rfl
      cases hverb
    have hahead := ahead_extent hps
    rw [List.flatMap_append, List.append_assoc] at hahead
    rw [htokens, assess_eq policy supplied hs]
    dsimp only
    rw [map_token_spannedFrom, boundRowsAt?_eq policy hne hahead]
    cases checkTokens policy (ps.map Piece.token) supplied <;> rfl

/-! ## Placeholders -/

theorem text_of_no_placeholder {params : List ViewParameter} {t : Token} (h : t.placeholder? = none) {text : List Char}
    (ht : View.tokenText params t = .ok text) : text = t.text := by
  rw [View.tokenText] at ht
  split at ht
  · rename_i number hk
    rw [Token.placeholder?, hk] at h
    cases h
  · split at ht
    · cases ht
    · exact (Except.ok.inj ht).symm
  · split at ht
    · cases ht
    · exact (Except.ok.inj ht).symm
  · exact (Except.ok.inj ht).symm

/-- What is pending has been passed, and is copied with what stands in front of the next placeholder. -/
theorem fillFrom?_eq {sql : String} (params : List ViewParameter) {copied offset : Nat} {pending trailing : List Char}
    {ps : List Piece} (h : Ahead sql copied (pending ++ (ps.flatMap Piece.text ++ trailing)))
    (hoffset : offset = copied + Scan.byteSize pending) :
    fillFrom? sql params copied (spannedFrom offset ps) =
      some ((ps.mapM (View.pieceText params)).map fun texts =>
        String.ofList (pending ++ (texts.flatten ++ trailing))) := by
  induction ps generalizing copied offset pending with
  | nil =>
    rw [spannedFrom, fillFrom?, h.rest]
    rfl
  | cons p ps ih =>
    have hsplit : pending ++ ((p :: ps).flatMap Piece.text ++ trailing) =
        pending ++ p.blanks ++ (p.token.text ++ (ps.flatMap Piece.text ++ trailing)) := by
      simp [Piece.text]
    have hstart : offset + Scan.byteSize p.blanks = copied + Scan.byteSize (pending ++ p.blanks) := by
      rw [hoffset, byteSize_append, Nat.add_assoc]
    rw [hsplit] at h
    rw [spannedFrom, fillFrom?, List.mapM_cons, View.pieceText]
    dsimp only
    rw [hstart]
    cases ht : View.tokenText params p.token with
    | error flaw => rfl
    | ok text =>
      cases hp : p.token.placeholder? with
      | none =>
        -- the token stays, so it becomes pending too
        obtain rfl := text_of_no_placeholder hp ht
        have hpassed : Ahead sql copied
            (pending ++ p.blanks ++ p.token.text ++ (ps.flatMap Piece.text ++ trailing)) := by
          rwa [List.append_assoc (pending ++ p.blanks)]
        have hstop : copied + Scan.byteSize (pending ++ p.blanks) + Scan.byteSize p.token.text =
            copied + Scan.byteSize (pending ++ p.blanks ++ p.token.text) := by
          rw [byteSize_append (pending ++ p.blanks), Nat.add_assoc]
        dsimp only
        rw [ih hpassed hstop]
        cases ps.mapM (View.pieceText params) with
        | error flaw => rfl
        | ok texts => exact congrArg (fun cs => some (Except.ok (String.ofList cs))) (by simp)
      | some index =>
        -- what is pending is copied, and nothing is pending behind the placeholder
        have hbehind : Ahead sql (copied + Scan.byteSize (pending ++ p.blanks) + Scan.byteSize p.token.text)
            ([] ++ (ps.flatMap Piece.text ++ trailing)) := h.append.append
        dsimp only
        rw [h.slice, ih hbehind (Nat.add_zero _).symm]
        cases ps.mapM (View.pieceText params) with
        | error flaw => rfl
        | ok texts =>
          refine congrArg (fun s => some (Except.ok s)) ?_
          simp [String.ofList_append, String.append_assoc]

theorem templateAt?_eq (sql : String) (values : List Value) :
    templateAt? sql values = some (View.template sql values) := by
  have hpieces : (Scan.ofString sql).pieces = [] ++ (Scan.ofString sql).pieces := rfl
  have hahead : Ahead sql 0 ([] ++ ((Scan.ofString sql).pieces.flatMap Piece.text ++ (Scan.ofString sql).trailing)) :=
    ahead_extent hpieces
  have hfill : ∀ params, fillFrom? sql params 0 (spannedFrom 0 (Scan.ofString sql).pieces) = _ :=
    fun params => fillFrom?_eq params hahead rfl
  simp only [templateAt?, scan?_eq, bind, Option.bind_some, scanned, View.template]
  cases (Scan.ofString sql).unclosed? with
  | some u => rfl
  | none =>
    cases View.parametersFrom 1 values with
    | error flaw => rfl
    | ok params =>
      dsimp only [Except.bind]
      rw [hfill]
      cases (Scan.ofString sql).pieces.mapM (View.pieceText params) <;> rfl

/-! ## Tiling -/

/-- Scanning a text ends and gives tokens that tile it. What is done at their offsets gives what is done with the
tokens and the blanks between them. -/
theorem tokens_tile (sql : String) :
    scan? sql = some (scanned (Scan.ofString sql)) ∧ Tiles sql (scanned (Scan.ofString sql)) ∧
      (∀ policy supplied, assessAt? policy sql supplied = some (assess policy sql supplied)) ∧
      ∀ values, templateAt? sql values = some (View.template sql values) := by
  refine ⟨scan?_eq sql, tiles_scanned sql, ?_, ?_⟩
  · intro policy supplied
    exact assessAt?_eq policy sql supplied
  · intro values
    exact templateAt?_eq sql values

end SpatialQuery.Bytewise
