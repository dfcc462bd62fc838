import SpatialQuery.Proofs.Except
import SpatialQuery.Proofs.View.Filled

/-!
What a server runs for a view. Whatever values come in, it is the statement with the values in the places
of the placeholders, if the statement fits, and only then (`filled_tokens_iff`).
-/

namespace SpatialQuery.View

open Token Lexical

/-! ## Views of statements -/

theorem viewText_of_ok {ps : List ViewParameter} {t : Token} {text : List Char}
    (h : tokenText ps t = .ok text) (hclosed : ∀ what, t.kind ≠ .unclosed what) :
    text = viewText ps t ∧ Bound ps t := by
  have hother : (∀ n, t.kind ≠ .placeholder n) → viewText ps t = t.text := by
    intro hk
    simp [viewText, slot?_eq_none_of_kind hk]
  -- a literal or a quoted name that spells no reference
  have hliteral : (∀ n, t.kind ≠ .placeholder n) →
      ps.find? (fun p => hasInfix p.reference.toList t.text) = none → t.text = viewText ps t ∧ Bound ps t := by
    intro hk hnone
    exact ⟨(hother hk).symm, hclosed, fun n hn => absurd hn (hk n), fun _ => by simpa using hnone⟩
  unfold tokenText at h
  split at h
  · rename_i number hk
    split at h
    · cases h
    split at h
    · rename_i n p hp
      cases h
      have hslot : slot? ps t = some p := by simp [slot?, hk, hp]
      refine ⟨by simp [viewText, hslot], hclosed, fun k _ => by simp [hslot], ?_⟩
      simp [hk]
    · cases h
  · rename_i hk
    split at h
    · cases h
    · rename_i hnone
      cases h
      exact hliteral (by simp [hk]) hnone
  · rename_i hk
    split at h
    · cases h
    · rename_i hnone
      cases h
      exact hliteral (by simp [hk]) hnone
  · rename_i hp hs hq
    cases h
    refine ⟨(hother hp).symm, hclosed, fun n hn => absurd hn (hp n), ?_⟩
    rintro (h | h)
    · exact absurd h hs
    · exact absurd h hq

theorem pieces_of_ok {ps : List ViewParameter} {pieces : List Piece} {texts : List (List Char)}
    (h : pieces.mapM (pieceText ps) = .ok texts)
    (hclosed : ∀ p ∈ pieces, ∀ what, p.token.kind ≠ .unclosed what) :
    texts = pieces.map (fun p => p.blanks ++ viewText ps p.token) ∧ ∀ p ∈ pieces, Bound ps p.token := by
  have hall := mapM_ok_iff.1 h
  clear h
  induction hall with
  | nil => exact ⟨rfl, List.forall_mem_nil _⟩
  | cons hp _ ih =>
    rw [List.forall_mem_cons] at hclosed
    obtain ⟨text, ht, rfl⟩ := map_ok_iff.1 hp
    obtain ⟨rfl, hbound⟩ := viewText_of_ok ht hclosed.1
    obtain ⟨rfl, hrest⟩ := ih hclosed.2
    exact ⟨rfl, List.forall_mem_cons.2 ⟨hbound, hrest⟩⟩

/-- The text of a view is the one of the statement with references in it. -/
theorem template_ok {sql text : String} {values : List Value} {ps : List ViewParameter}
    (h : template sql values = .ok (text, ps)) :
    parametersFrom 1 values = .ok ps ∧ (Scan.ofString sql).unclosed? = none ∧
      (∀ p ∈ (Scan.ofString sql).pieces, Bound ps p.token) ∧
      text.toList = render (viewText ps) (Scan.ofString sql) := by
  unfold template at h
  dsimp only at h
  cases hu : (Scan.ofString sql).unclosed? with
  | some u =>
    rw [hu] at h
    cases h
  | none =>
    rw [hu] at h
    obtain ⟨qs, hp, h⟩ := bind_ok_iff.1 h
    obtain ⟨texts, ht, h⟩ := bind_ok_iff.1 h
    obtain ⟨rfl, rfl⟩ := Prod.mk.inj (Except.ok.inj h)
    obtain ⟨rfl, hb⟩ := pieces_of_ok ht (unclosed?_eq_none_iff.1 hu)
    refine ⟨hp, rfl, hb, ?_⟩
    rw [String.toList_ofList, render, List.flatMap_def]

theorem parameter_of_ok {number : Nat} {values : List Value} {ps : List ViewParameter}
    (h : parametersFrom number values = .ok ps) {i : Nat} {p : ViewParameter} (hp : ps[i]? = some p) :
    ∃ v, p = ViewParameter.ofValue (number + i) v := by
  induction values generalizing number ps i with
  | nil =>
    cases h
    simp at hp
  | cons v values ih =>
    rw [parametersFrom] at h
    split at h
    · obtain ⟨qs, hr, rfl⟩ := map_ok_iff.1 h
      cases i with
      | zero => exact ⟨v, by simpa using hp.symm⟩
      | succ i =>
        obtain ⟨v', he⟩ := ih hr (i := i) (by simpa using hp)
        exact ⟨v', by rw [he]; congr 1; omega⟩
    · cases h

theorem numbered_of_ok {values : List Value} {ps : List ViewParameter}
    (h : parametersFrom 1 values = .ok ps) (given : List (List Char)) : Numbered (ps.zip given) := by
  intro i f hf
  have hp : ps[i]? = some f.1 := by
    rw [List.getElem?_zip_eq_some] at hf
    exact hf.1
  obtain ⟨v, he⟩ := parameter_of_ok h hp
  rw [he, reference_ofValue, Nat.add_comm]

theorem ofValidator_validator (k : ParameterKind) : ParameterKind.ofValidator k.validator = k := by
  cases k <;> decide

theorem accepted_of_admissible {values : List Value} {ps : List ViewParameter}
    (h : parametersFrom 1 values = .ok ps) {given : List (List Char)} (hg : Admissible ps given) :
    Accepted (ps.zip given) := by
  intro f hf
  obtain ⟨i, hi⟩ := List.mem_iff_getElem?.1 (List.of_mem_zip hf).1
  obtain ⟨v, he⟩ := parameter_of_ok h hi
  have hkind : ParameterKind.ofValidator f.1.validator = f.1.kind := by
    rw [he]
    exact ofValidator_validator _
  rw [← hkind]
  exact hg.2 f hf

/-- A value without percent signs that every kind of parameter takes. -/
def plainValue : ParameterKind → List Char
  | .boolean => "true".toList
  | .integer | .float => ['0']
  | .text => []

theorem zip_map_self {α β : Type} (g : α → β) (xs : List α) :
    xs.zip (xs.map g) = xs.map fun x => (x, g x) := by
  induction xs with
  | nil => rfl
  | cons x xs ih => simp [ih]

theorem exists_admissible {values : List Value} {ps : List ViewParameter}
    (h : parametersFrom 1 values = .ok ps) :
    ∃ given, Admissible ps given ∧ ∀ f ∈ ps.zip given, '%' ∉ f.2 := by
  have hplain : ∀ k, k.accepts (String.ofList (plainValue k)) = true ∧ '%' ∉ plainValue k := by
    intro k
    cases k <;> decide
  refine ⟨ps.map fun p => plainValue p.kind, ⟨by simp, ?_⟩, ?_⟩
  · intro f hf
    rw [zip_map_self] at hf
    obtain ⟨p, hp, rfl⟩ := List.mem_map.1 hf
    obtain ⟨i, hi⟩ := List.mem_iff_getElem?.1 hp
    obtain ⟨v, he⟩ := parameter_of_ok h hi
    have hkind : ParameterKind.ofValidator p.validator = p.kind := by
      rw [he]
      exact ofValidator_validator _
    rw [hkind]
    exact (hplain _).1
  · intro f hf
    rw [zip_map_self] at hf
    obtain ⟨p, -, rfl⟩ := List.mem_map.1 hf
    exact (hplain _).2

/-! ## What the server runs -/

theorem sql_of_ok {id : ViewId} {v : Validated} {geometry : Option Geometry.Column}
    {keyColumn : Option String} {view : View}
    (h : ofStatement id v geometry keyColumn = .ok view) :
    template v.statement.sql v.statement.parameters = .ok (view.sql, view.parameters) := by
  unfold ofStatement at h
  split at h
  · cases h
  · split at h
    · cases h
    · rename_i sql ps ht
      cases h
      exact ht

theorem mem_attached {blanks : List Char} {ts : List Token} {q : Piece} (h : q ∈ attached blanks ts) :
    q.token ∈ ts ∧ (q.blanks = blanks ∨ q.blanks = []) := by
  cases ts with
  | nil => simp [attached] at h
  | cons t ts =>
    rcases List.mem_cons.1 h with rfl | h
    · exact ⟨by simp, .inl rfl⟩
    · obtain ⟨u, hu, rfl⟩ := List.mem_map.1 h
      exact ⟨List.mem_cons_of_mem t hu, .inr rfl⟩

theorem valueTokens_closed {kind : ParameterKind} {value : List Char} :
    ∀ t ∈ valueTokens kind value, ∀ what, t.kind ≠ .unclosed what := by
  have hsign : ∀ t ∈ signTokens value, ∀ what, t.kind ≠ .unclosed what := by
    unfold signTokens
    split <;> simp
  have hnum : ∀ t ∈ valueTokens .integer value, ∀ what, t.kind ≠ .unclosed what := by
    intro t ht
    simp only [valueTokens, List.cons_append, List.mem_cons, List.mem_append, List.not_mem_nil,
      or_false] at ht
    rcases ht with rfl | ht | rfl | rfl
    · simp
    · exact hsign t ht
    · simp
    · simp
  cases kind with
  | text => simp [valueTokens]
  | boolean => simp [valueTokens]
  | integer => exact hnum
  | float => exact hnum

variable {fs : Assignment} {s : Scan}

theorem blank_filledScan (h : Readable s) : Blank (filledScan fs s) := by
  obtain ⟨hblanks, htrail⟩ := blank_of_readable h
  refine ⟨?_, htrail⟩
  intro q hq
  obtain ⟨p, hp, hmem⟩ := List.mem_flatMap.1 hq
  rcases (mem_attached hmem).2 with he | he
  · rw [he]
    exact hblanks p hp
  · simp [he]

theorem closed_filledScan (hb : ∀ p ∈ s.pieces, Bound (fs.map Prod.fst) p.token) :
    (filledScan fs s).unclosed? = none := by
  rw [unclosed?_eq_none_iff]
  intro q hq
  obtain ⟨p, hp, hmem⟩ := List.mem_flatMap.1 hq
  have htoken := (mem_attached hmem).1
  unfold filledTokens at htoken
  split at htoken
  · exact valueTokens_closed _ htoken
  · rw [List.mem_singleton.1 htoken]
    exact (hb p hp).closed

theorem solid_filledScan (h : Readable s) (hacc : Accepted fs) :
    ∀ q ∈ (filledScan fs s).pieces, ∃ c cs, q.token.text = c :: cs ∧ isSpace c = false := by
  intro q hq
  obtain ⟨p, hp, hmem⟩ := List.mem_flatMap.1 hq
  have htoken := (mem_attached hmem).1
  unfold filledTokens at htoken
  split at htoken
  · rename_i f hslot
    obtain ⟨n, -, hf⟩ := kind_of_slot? hslot
    have hvalue : Readable (prepend (attached [] (valueTokens f.1.kind f.2)) ⟨[], []⟩) :=
      (readable_values_iff (hacc f (List.mem_of_getElem? hf)) (by simp) (readable_nil.2 (by simp))).2
        (by simp)
    rw [← tokens_attached [] (valueTokens f.1.kind f.2)] at htoken
    obtain ⟨r, hr, he⟩ := List.mem_map.1 htoken
    obtain ⟨rest, hl⟩ := lexeme_of_readable hvalue (p := r) (List.mem_append_left _ hr)
    rw [← he]
    exact hl.exists_cons
  · obtain ⟨rest, hl⟩ := lexeme_of_readable h hp
    rw [List.mem_singleton.1 htoken]
    exact hl.exists_cons

/-- Whatever values a server puts into a view, it runs the statement with the tokens of the values in the
places of the placeholders, if the statement fits, and only then. -/
theorem filled_tokens_iff {id : ViewId} {v : Validated} {geometry : Option Geometry.Column}
    {keyColumn : Option String} {view : View} (h : ofStatement id v geometry keyColumn = .ok view) :
    (∀ values, Admissible view.parameters values →
        (Scan.ofChars (filled view values)).unclosed? = none ∧
          (Scan.ofChars (filled view values)).tokens =
            (Scan.ofString v.statement.sql).tokens.flatMap
              (filledTokens (view.parameters.zip values))) ↔
      Fitting view.parameters (Scan.ofString v.statement.sql).pieces := by
  obtain ⟨hparams, hunclosed, hbound, htext⟩ := template_ok (sql_of_ok h)
  have hread : Readable (Scan.ofString v.statement.sql) := readable_ofChars _
  generalize Scan.ofString v.statement.sql = s at *
  have hzip : ∀ values, Admissible view.parameters values →
      (view.parameters.zip values).map Prod.fst = view.parameters := by
    intro values hv
    rw [List.map_fst_zip]
    rw [hv.1]
  constructor
  · intro hall
    -- values without percent signs are enough to find that the statement fits
    obtain ⟨given, hgiven, hplain⟩ := exists_admissible hparams
    have hn := numbered_of_ok hparams given
    have hacc := accepted_of_admissible hparams hgiven
    obtain ⟨-, htokens⟩ := hall given hgiven
    have hfst := hzip given hgiven
    rw [filled, htext] at htokens
    rw [← hfst] at hbound ⊢
    generalize view.parameters.zip given = fs at *
    rw [← hfst, ← tokens_filledScan] at htokens
    have hspelled : Unspelled (fs.map Prod.fst) s.pieces := by
      -- a reference elsewhere is replaced too, and a percent sign is missing then
      by_contra hnot
      have hlt := (count_substitute_view hn hplain hread hbound).2 hnot
      have hcount := count_text (blank_of_readable (readable_ofChars
        (substitute fs 0 (render (viewText (fs.map Prod.fst)) s)))) (c := '%') rfl
      rw [htokens, ← count_text (blank_filledScan hread) rfl, Scan.text_ofChars,
        text_filledScan] at hcount
      omega
    refine ⟨hspelled, (readable_filledScan_iff hacc hread hbound).1 ?_⟩
    rw [substitute_view hn hread hbound hspelled, ← text_filledScan] at htokens
    exact readable_of_tokens (blank_filledScan hread) (solid_filledScan hread hacc) htokens
  · rintro ⟨hspelled, hapart⟩ values hv
    have hn := numbered_of_ok hparams values
    have hacc := accepted_of_admissible hparams hv
    have hfst := hzip values hv
    rw [filled, htext]
    rw [← hfst] at hbound hspelled hapart
    generalize view.parameters.zip values = fs at *
    rw [← hfst, substitute_view hn hread hbound hspelled, ← text_filledScan,
      ofChars_text ((readable_filledScan_iff hacc hread hbound).2 hapart), ← tokens_filledScan]
    exact ⟨closed_filledScan hbound, rfl⟩

/-- Values in quotes stay literals. -/
theorem filled_literal :
    let id : ViewId := ⟨"ws", "db", "roads"⟩
    let column : Geometry.Column := ⟨"geom", .point, 4326⟩
    let view : View := ⟨id, "SELECT '%p1%'", [.ofValue 1 (.text "a")], column, none⟩
    ofStatement id ⟨.ofText "SELECT $1" [.text "a"], none⟩ (some column) none = .ok view ∧
      ∀ values, Admissible view.parameters values →
        (Scan.ofChars (filled view values)).unclosed? = none ∧
          (Scan.ofChars (filled view values)).tokens =
            (Scan.ofString "SELECT $1").tokens.flatMap (filledTokens (view.parameters.zip values)) := by
  intro id column view
  have hscan : Scan.ofString "SELECT $1" =
      ⟨[⟨[], ⟨.word, "SELECT".toList⟩⟩, ⟨[' '], ⟨.placeholder 1, ['$', '1']⟩⟩], []⟩ := by
    rw [Scan.ofString, ofChars_eq_scanWithin _ (Nat.le_refl _)]
    decide +kernel
  have hview : ofStatement id ⟨.ofText "SELECT $1" [.text "a"], none⟩ (some column) none = .ok view := by
    unfold ofStatement template
    rw [Statement.ofText, hscan]
    decide +kernel
  refine ⟨hview, (filled_tokens_iff hview).2 ?_⟩
  rw [Statement.ofText, hscan]
  simp [Fitting, Unspelled, KeptApart, Spells, StartsQuoted, StartsWord, isComment]

/-- A statement that is accepted holds a reference outside of its placeholder: the server replaces that
one too. -/
theorem filled_spelled : ∃ v view values,
    (Statement.ofText "SELECT a %p1% b FROM t WHERE c = $1 LIMIT 5" [.int 1]).validated {} = .ok v ∧
      ofStatement ⟨"ws", "db", "roads"⟩ v (some ⟨"geom", .point, 4326⟩) none = .ok view ∧
      Admissible view.parameters values ∧
      (Scan.ofChars (filled view values)).tokens ≠
        (Scan.ofString v.statement.sql).tokens.flatMap (filledTokens (view.parameters.zip values)) := by
  have hscan : Scan.ofString "SELECT a %p1% b FROM t WHERE c = $1 LIMIT 5" =
      scanWithin 50 "SELECT a %p1% b FROM t WHERE c = $1 LIMIT 5".toList :=
    ofChars_eq_scanWithin 50 (by decide)
  have hvalid : Validation.assess {} "SELECT a %p1% b FROM t WHERE c = $1 LIMIT 5" (some 1) =
      .ok ("SELECT a %p1% b FROM t WHERE c = $1 LIMIT 5", none) := by
    unfold Validation.assess
    rw [hscan]
    decide +kernel
  refine ⟨⟨.ofText "SELECT a %p1% b FROM t WHERE c = $1 LIMIT 5" [.int 1], none⟩,
    ⟨⟨"ws", "db", "roads"⟩, "SELECT a %p1% b FROM t WHERE c = (%p1%) LIMIT 5",
      [.ofValue 1 (.int 1)], ⟨"geom", .point, 4326⟩, none⟩, [['2']], ?_, ?_,
    ⟨by decide, by decide⟩, ?_⟩
  · unfold Statement.validated
    rw [show (Statement.ofText _ [.int 1]).parameters.length = 1 from rfl, Statement.ofText, hvalid]
  · unfold ofStatement template
    rw [Statement.ofText, hscan]
    decide +kernel
  · rw [Statement.ofText, hscan, ofChars_eq_scanWithin 50 (by decide)]
    decide +kernel

end SpatialQuery.View
