import SpatialQuery.Database.Inference
import SpatialQuery.Proofs.Checks.Rewritten
import SpatialQuery.Proofs.Query.Embedding

/-!
A statement in the place of a subquery. It passes the checks as it does alone, and the same relations are found in
it, so a probe of one row is let pass wherever its statement is (`probe_accepted`).
-/

namespace SpatialQuery.Safety

open Token Lexical Validation RowLimit Query Reads Database

/-! ## Relations -/

/-- Behind nested tokens so many groups less are open as were open in them. -/
theorem groupEnd_nested {ts : List Token} {depth : Nat} (h : isNested depth ts = true) (e : Nat) (k : List Token) :
    groupEnd (e + depth) (ts ++ k) = groupEnd e k := by
  induction ts generalizing depth with
  | nil =>
    obtain rfl : depth = 0 := by simpa [isNested] using h
    rfl
  | cons t ts ih =>
    rw [List.cons_append, groupEnd.eq_def]
    dsimp only
    cases ho : t.isPunct '(' with
    | true =>
      rw [isNested_open ho] at h
      exact ih h
    | false =>
      cases hc : t.isPunct ')' with
      | false =>
        rw [isNested_flat ho hc] at h
        exact ih h
      | true =>
        cases depth with
        | zero => simp [isNested_close_zero hc] at h
        | succ depth =>
          rw [isNested_close hc] at h
          exact ih h

/-- Nested tokens do not end a group that is open in front of them. -/
theorem balanced_of_isNested {ts : List Token} (h : isNested 0 ts = true) : Balanced ts :=
  groupEnd_nested h

section Subquery

variable {ts : List Token} (h : isNested 0 ts = true) (blanks : List Char) (label : String) (n : Nat)

/-- What stands behind a subquery. -/
def behind (blanks : List Char) (label : String) (n : Nat) : List Token :=
  (subqueryPieces blanks label n).map Piece.token

/-- The tokens of a statement as a subquery. -/
def subquery (blanks : List Char) (label : String) (n : Nat) (ts : List Token) : List Token :=
  openingPieces.map Piece.token ++ (ts ++ behind blanks label n)

theorem mentions_behind (before : List Token) (here : Bool) :
    mentions before here [true] (behind blanks label n) = [] :=
  rfl

include h

/-- The subquery itself is no relation. -/
theorem fromList_subquery : fromList true (openParen :: (ts ++ behind blanks label n)) = [] := by
  have hitem : item? (openParen :: (ts ++ behind blanks label n)) = some (none, (behind blanks label n).drop 1) :=
    item?_group (balanced_of_isNested h) _
  have hlist : fromList true (openParen :: (ts ++ behind blanks label n)) = _ := fromList_eq hitem
  rw [hlist]
  rfl

theorem readBy_subquery (defaultSchema : String) :
    Relation.readBy defaultSchema (subquery blanks label n ts) = Relation.readBy defaultSchema ts := by
  have hfits : Fits (behind blanks label n) 0 ts := fun _ => h
  have hclose : ∀ t ∈ (behind blanks label n).head?, t.isPunct ')' = true := by
    rintro t ⟨⟩
    rfl
  have hbindings := bindings_embed faithful_id hclose hfits
  have hopen : ∀ t ∈ (openingPieces.map Piece.token).reverse.head?, t.isPunct '(' = true := by
    rintro t ⟨⟩
    rfl
  have hmentions := mentions_embed faithful_id hclose hopen nofun (mentions_behind blanks label n) [] false [] hfits
  rw [List.map_id] at hbindings
  simp only [List.map_nil, List.map_id, List.nil_append] at hmentions
  -- The parenthesis and the keywords in front bind nothing and mention nothing.
  have hds : bindings (subquery blanks label n ts) =
      (bindings ts).map (shiftBinding (behind blanks label n).length) := by
    have hopening : bindings (subquery blanks label n ts) = bindings (ts ++ behind blanks label n) := rfl
    rw [hopening, hbindings]
    exact List.append_nil _
  have hms : mentions [] false [] (subquery blanks label n ts) =
      (mentions [] false [] ts).map (shift (behind blanks label n).length) := by
    rw [← hmentions]
    have hopening : mentions [] false [] (subquery blanks label n ts) =
        fromList true (openParen :: (ts ++ behind blanks label n)) ++
          mentions (openingPieces.map Piece.token).reverse false [true] (ts ++ behind blanks label n) := rfl
    rw [hopening, fromList_subquery h]
    rfl
  rw [Relation.readBy, hds, hms, filterMap_resolve_shift]
  rfl

end Subquery

/-! ## Checks -/

/-- Behind a `UNION`, no name of a system catalog is added. -/
theorem checkUnion_append {allowed : Bool} {ts us : List Token} (h : checkUnion allowed ts = .ok ())
    (hunion : ∀ u ∈ us, u.isKeyword "union" = false)
    (hcatalog : (us.filterMap Token.name?).find? isSystemCatalog = none) :
    checkUnion allowed (ts ++ us) = .ok () := by
  induction ts with
  | nil => exact checkUnion_ok allowed hunion
  | cons t ts ih =>
    rw [checkUnion] at h
    rw [List.cons_append, checkUnion]
    cases hkeyword : t.isKeyword "union" with
    | false =>
      rw [hkeyword] at h
      exact ih h
    | true =>
      cases allowed with
      | false =>
        rw [hkeyword] at h
        cases h
      | true =>
        simp only [hkeyword, if_true, Bool.not_true, Bool.false_eq_true, if_false, List.filterMap_append,
          List.find?_append] at h ⊢
        split at h
        · cases h
        · rename_i hnone
          rw [hnone, hcatalog]
          exact ih h

/-- The checks let a statement pass as a subquery too. -/
theorem checkTokens_probe {policy : Policy} {ts : List Token} {supplied : Option Nat}
    (hnested : isNested 0 ts = true) (hread : ReadOnly policy ts) (h : checkTokens policy ts supplied = .ok ())
    (blanks : List Char) (n : Nat) : checkTokens policy (subquery blanks "geoview_probe" n ts) supplied = .ok () := by
  obtain ⟨hunion, -, hparameters, hrelations⟩ := checkTokens_iff.1 h
  have hsubquery := hread.subquery blanks "geoview_probe" n
  refine checkTokens_iff.2 ⟨?_, ?_, ?_, ?_⟩
  · -- The names behind the statement are those of no system catalog.
    have hnames : (behind blanks "geoview_probe" n).filterMap Token.name? = ["as", "geoview_probe", "limit"] := rfl
    have hbehind : ∀ u ∈ behind blanks "geoview_probe" n, u.isKeyword "union" = false := by
      intro u hu
      simp only [behind, subqueryPieces, limitPieces, List.map_cons, List.map_nil, List.mem_cons, List.not_mem_nil,
        or_false] at hu
      rcases hu with rfl | rfl | rfl | rfl | rfl <;> rfl
    have hopening : checkUnion policy.allowUnion (subquery blanks "geoview_probe" n ts) =
        checkUnion policy.allowUnion (ts ++ behind blanks "geoview_probe" n) := rfl
    rw [hopening]
    exact checkUnion_append hunion hbehind (by rw [hnames]; decide)
  · exact checkWrites_iff.2 ⟨fun t ht => ⟨(hsubquery.allowed t ht).keyword, (hsubquery.allowed t ht).into⟩,
      hsubquery.harmless⟩
  · have hindices : (subquery blanks "geoview_probe" n ts).filterMap placeholder? = ts.filterMap placeholder? := by
      rw [subquery, List.filterMap_append, List.filterMap_append]
      exact List.append_nil _
    rw [checkParameters.eq_def, hindices]
    exact hparameters
  · rw [checkRelations, readBy_subquery hnested]
    exact hrelations

/-! ## The probe -/

theorem toList_probeSql (sql : String) : (probeSql sql).toList = wrapped "geoview_probe" sql.toList 1 := by
  have htail : ") AS \"geoview_probe\" LIMIT 1".toList =
      ") AS ".toList ++ (Text.quote '"' "geoview_probe".toList ++ (" LIMIT ".toList ++ Text.ofNat 1)) := by
    decide
  have hprobe : probeSql sql = "SELECT * FROM (" ++ sql ++ ") AS \"geoview_probe\" LIMIT 1" := by
    unfold probeSql
    rfl
  rw [hprobe, String.toList_append, String.toList_append, htail]
  unfold wrapped
  simp only [List.append_assoc]

/-- A text of nothing but a statement is that statement. -/
theorem pieces_of_statement {s : Scan} {pieces : List Piece} (h : statement s = .ok pieces)
    (hplain : ∀ t ∈ s.tokens, isOutside t = false) : s.pieces = pieces := by
  obtain ⟨before, after, hpieces, hbefore, hafter, -, -⟩ := statement_spec h
  have hnone : ∀ ps : List Piece, (∀ p ∈ ps, p ∈ s.pieces) → (∀ p ∈ ps, isOutside p.token = true) → ps = [] := by
    intro ps hsub hout
    refine List.eq_nil_iff_forall_not_mem.2 fun p hp => ?_
    have hno := hplain p.token (List.mem_map_of_mem (hsub p hp))
    rw [hout p hp] at hno
    cases hno
  have hnil := hnone before (fun p hp => by rw [hpieces]; simp [hp]) hbefore
  have hnil' := hnone after (fun p hp => by rw [hpieces]; simp [hp]) hafter
  rw [hpieces, hnil, hnil', List.nil_append, List.append_nil]

/-- The probe is read as the statement in parentheses, with its pieces as they are. -/
theorem scan_probe {sql : String} (h : ∀ p ∈ (Scan.ofString sql).pieces, Settled p.token) :
    Scan.ofString (probeSql sql) =
      ⟨openingPieces ++ ((Scan.ofString sql).pieces ++
        subqueryPieces (Scan.ofString sql).trailing "geoview_probe" 1), []⟩ := by
  have htext : sql.toList = (Scan.ofString sql).text := (Scan.text_ofChars sql.toList).symm
  have hlabel : '"' ∉ "geoview_probe".toList := by decide
  have hsubquery := scan_subquery (readable_ofChars sql.toList) h hlabel 1
  rw [Scan.ofString, toList_probeSql, htext]
  exact hsubquery

/-- The probe of a statement that is not rejected is not rejected, whatever the policy, and it reads the relations
of the statement. -/
theorem probe_accepted {policy : Policy} {sql : String} {supplied : Option Nat}
    {out : String × Option LimitChange} (h : assess policy sql supplied = .ok out)
    (hplain : ∀ t ∈ (Scan.ofString sql).tokens, isOutside t = false)
    (hnested : isNested 0 (Scan.ofString sql).tokens = true) :
    (∃ probed, assess policy (probeSql sql) supplied = .ok probed) ∧
      ∀ defaultSchema, Relation.readBy defaultSchema (Scan.ofString (probeSql sql)).tokens =
        Relation.readBy defaultSchema (Scan.ofString sql).tokens := by
  obtain ⟨pieces, hs, hchecks, -⟩ := assess_ok_iff.1 h
  have hpieces := pieces_of_statement hs hplain
  have hread := readOnly_of_checks hs hchecks
  have htokens : (Scan.ofString sql).tokens = pieces.map Piece.token := by
    rw [Scan.tokens, hpieces]
  rw [← htokens] at hchecks hread
  have hscan := scan_probe fun p hp => (hread.allowed p.token (List.mem_map_of_mem hp)).settled
  have hprobe : (Scan.ofString (probeSql sql)).tokens =
      subquery (Scan.ofString sql).trailing "geoview_probe" 1 (Scan.ofString sql).tokens := by
    rw [hscan, Scan.tokens, List.map_append, List.map_append]
    rfl
  refine ⟨?_, fun defaultSchema => by rw [hprobe, readBy_subquery hnested]⟩
  have hstatement : statement (Scan.ofString (probeSql sql)) = .ok (Scan.ofString (probeSql sql)).pieces := by
    refine statement_eq ?_ fun p hp => ?_
    · rw [hscan]
      exact ⟨_, rfl, rfl⟩
    · have ht : p.token ∈ (Scan.ofString (probeSql sql)).tokens := List.mem_map_of_mem hp
      rw [hprobe] at ht
      have hallowed := (hread.subquery (Scan.ofString sql).trailing "geoview_probe" 1).allowed _ ht
      exact ⟨hallowed.settled, hallowed.single⟩
  have hall := checkTokens_probe hnested hread hchecks (Scan.ofString sql).trailing 1
  rw [← hprobe, Scan.tokens] at hall
  rw [assess_eq policy supplied hstatement, hall]
  exact ⟨_, rfl⟩

/-- A union of a query with names of its own and one in parentheses, with blanks around. -/
theorem probe_accepted_union :
    let sql := " WITH a AS (SELECT id FROM b WHERE kind = $1) SELECT id FROM a UNION (SELECT 1) LIMIT 10\n"
    let text := "WITH a AS (SELECT id FROM b WHERE kind = $1) SELECT id FROM a UNION (SELECT 1) LIMIT 10"
    let policy : Policy := { allowUnion := true }
    assess policy sql (some 1) = .ok (text, none) ∧
      (∀ t ∈ (Scan.ofString sql).tokens, isOutside t = false) ∧ isNested 0 (Scan.ofString sql).tokens = true ∧
        (∃ probed, assess policy (probeSql sql) (some 1) = .ok probed) ∧
          ∀ defaultSchema, Relation.readBy defaultSchema (Scan.ofString (probeSql sql)).tokens =
            Relation.readBy defaultSchema (Scan.ofString sql).tokens := by
  intro sql text policy
  have hscan : Scan.ofString sql = scanWithin 100 sql.toList := ofChars_eq_scanWithin 100 (by decide +kernel)
  have h : assess policy sql (some 1) = .ok (text, none) := by
    unfold assess
    rw [hscan]
    decide +kernel
  have hplain : ∀ t ∈ (Scan.ofString sql).tokens, isOutside t = false := by
    rw [hscan]
    decide +kernel
  have hnested : isNested 0 (Scan.ofString sql).tokens = true := by
    rw [hscan]
    decide +kernel
  exact ⟨h, hplain, hnested, probe_accepted h hplain hnested⟩

end SpatialQuery.Safety
