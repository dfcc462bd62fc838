import SpatialQuery.Proofs.Checks.ReadOnly
import SpatialQuery.Proofs.Limit.Rewritten

/-!
Names of system catalogs in statements with a `UNION`. Where a policy allows unions, a name is looked for behind each
`UNION` and not in front of the first one. So a statement is rejected for such a name exactly if a `UNION` stands in
front of it, and the verdict may change when two branches change places (`union_catalog_iff`).
-/

namespace SpatialQuery.Safety

open Token Lexical Validation RowLimit

/-! ## Names of catalogs -/

/-- A word or a quoted name is one of the system catalogs. -/
def NamesCatalog (ts : List Token) : Prop :=
  ∃ t ∈ ts, ∃ name ∈ t.name?, isSystemCatalog name = true

/-- Such a name stands behind a `UNION`. -/
def CatalogBehind (ts : List Token) : Prop :=
  ∃ before u behind, ts = before ++ u :: behind ∧ u.isKeyword "union" = true ∧ NamesCatalog behind

theorem namesCatalog_append {ts us : List Token} : NamesCatalog (ts ++ us) ↔ NamesCatalog ts ∨ NamesCatalog us := by
  simp only [NamesCatalog, List.mem_append, or_and_right, exists_or]

theorem namesCatalog_cons {t : Token} {ts : List Token} :
    NamesCatalog (t :: ts) ↔ (∃ name ∈ t.name?, isSystemCatalog name = true) ∨ NamesCatalog ts := by
  simp only [NamesCatalog, List.exists_mem_cons_iff]

theorem find?_catalog_iff {ts : List Token} :
    (ts.filterMap Token.name?).find? isSystemCatalog = none ↔ ¬ NamesCatalog ts := by
  rw [List.find?_eq_none]
  constructor
  · rintro h ⟨t, ht, name, hname, hcatalog⟩
    exact h name (List.mem_filterMap.2 ⟨t, ht, hname⟩) hcatalog
  · intro h name hname hcatalog
    obtain ⟨t, ht, hname⟩ := List.mem_filterMap.1 hname
    exact h ⟨t, ht, name, hname, hcatalog⟩

theorem not_catalogBehind_nil : ¬ CatalogBehind [] := by
  rintro ⟨before, u, behind, h, -⟩
  exact absurd h (List.append_ne_nil_of_right_ne_nil _ (List.cons_ne_nil _ _)).symm

theorem catalogBehind_cons {t : Token} {ts : List Token} :
    CatalogBehind (t :: ts) ↔ t.isKeyword "union" = true ∧ NamesCatalog ts ∨ CatalogBehind ts := by
  constructor
  · rintro ⟨before, u, behind, h, hu, hnames⟩
    cases before with
    | nil =>
      obtain ⟨rfl, rfl⟩ := List.cons.inj h
      exact .inl ⟨hu, hnames⟩
    | cons s before =>
      obtain ⟨rfl, rfl⟩ := List.cons.inj h
      exact .inr ⟨before, u, behind, rfl, hu, hnames⟩
  · rintro (⟨ht, hnames⟩ | ⟨before, u, behind, rfl, hu, hnames⟩)
    · exact ⟨[], t, ts, rfl, ht, hnames⟩
    · exact ⟨t :: before, u, behind, rfl, hu, hnames⟩

theorem CatalogBehind.names {ts : List Token} (h : CatalogBehind ts) : NamesCatalog ts := by
  obtain ⟨before, u, behind, rfl, -, hnames⟩ := h
  exact namesCatalog_append.2 (.inr (namesCatalog_cons.2 (.inr hnames)))

/-! ## The check -/

theorem checkUnion_catalog (ts : List Token) :
    CatalogBehind ts ∧ (∃ name, checkUnion true ts = .error (.unionCatalog name)) ∨
      ¬ CatalogBehind ts ∧ checkUnion true ts = .ok () := by
  induction ts with
  | nil => exact .inr ⟨not_catalogBehind_nil, rfl⟩
  | cons t ts ih =>
    rw [catalogBehind_cons, checkUnion]
    cases ht : t.isKeyword "union" with
    | false => simpa using ih
    | true =>
      cases hfind : (ts.filterMap Token.name?).find? isSystemCatalog with
      | some name =>
        have hnames : NamesCatalog ts := by
          by_contra hnone
          rw [find?_catalog_iff.2 hnone] at hfind
          cases hfind
        exact .inl ⟨.inl ⟨rfl, hnames⟩, name, rfl⟩
      | none =>
        have hnone := find?_catalog_iff.1 hfind
        simpa [hnone] using ih

theorem writes?_ne {t : Token} {next : Option Token} (name : String) :
    writes? t next ≠ some (.unionCatalog name) := by
  unfold writes?
  split
  · nofun
  · split
    · nofun
    · split_ifs <;> nofun

theorem checkWrites_ne (ts : List Token) (name : String) : checkWrites ts ≠ .error (.unionCatalog name) := by
  induction ts with
  | nil => nofun
  | cons t ts ih =>
    rw [checkWrites]
    split
    · rename_i reason hreason
      intro h
      rw [Except.error.inj h] at hreason
      exact writes?_ne name hreason
    · exact ih

theorem checkParameters_ne (ts : List Token) (supplied : Option Nat) (name : String) :
    checkParameters ts supplied ≠ .error (.unionCatalog name) := by
  intro h
  unfold checkParameters at h
  split at h
  · cases h
  · dsimp only at h
    split at h <;> cases h

theorem checkRelations_ne (policy : Policy) (ts : List Token) (name : String) :
    checkRelations policy ts ≠ .error (.unionCatalog name) := by
  intro h
  unfold checkRelations at h
  split at h
  · cases h
  · split at h <;> cases h

/-- No other check gives this reason. -/
theorem checkTokens_catalog_iff {policy : Policy} {ts : List Token} (supplied : Option Nat) {name : String} :
    checkTokens policy ts supplied = .error (.unionCatalog name) ↔
      checkUnion policy.allowUnion ts = .error (.unionCatalog name) := by
  refine ⟨fun h => ?_, fun h => bind_error_iff.2 (.inl h)⟩
  obtain hunion | ⟨_, -, h⟩ := bind_error_iff.1 h
  · exact hunion
  obtain hwrites | ⟨_, -, h⟩ := bind_error_iff.1 h
  · exact absurd hwrites (checkWrites_ne ts name)
  obtain hparameters | ⟨_, -, h⟩ := bind_error_iff.1 h
  · exact absurd hparameters (checkParameters_ne ts supplied name)
  · exact absurd h (checkRelations_ne policy ts name)

section Verdicts

variable {policy : Policy} (hallow : policy.allowUnion = true) {sql : String} {pieces : List Piece}
  (hs : statement (Scan.ofString sql) = .ok pieces) (supplied : Option Nat)

include hallow hs

/-- A statement is rejected for a name of a catalog exactly if the name is behind a `UNION`. -/
theorem rejected_catalog_iff : (∃ name, assess policy sql supplied = .error (.unionCatalog name)) ↔
    CatalogBehind (pieces.map Piece.token) := by
  have hassess : ∀ name, assess policy sql supplied = .error (.unionCatalog name) ↔
      checkUnion true (pieces.map Piece.token) = .error (.unionCatalog name) := by
    intro name
    rw [← hallow, ← checkTokens_catalog_iff supplied, assess_eq policy supplied hs]
    cases checkTokens policy (pieces.map Piece.token) supplied with
    | error reason => exact ⟨fun h => congrArg _ (Except.error.inj h), fun h => congrArg _ (Except.error.inj h)⟩
    | ok => exact iff_of_false nofun nofun
  simp only [hassess]
  rcases checkUnion_catalog (pieces.map Piece.token) with ⟨hbehind, hname⟩ | ⟨hnone, hok⟩
  · exact iff_of_true hname hbehind
  · rw [hok]
    exact iff_of_false nofun hnone

theorem accepted_union_iff : (∃ out, assess policy sql supplied = .ok out) ↔
    ¬ CatalogBehind (pieces.map Piece.token) ∧ checkWrites (pieces.map Piece.token) = .ok () ∧
      checkParameters (pieces.map Piece.token) supplied = .ok () ∧
        checkRelations policy (pieces.map Piece.token) = .ok () := by
  have haccepted : (∃ out, assess policy sql supplied = .ok out) ↔
      checkTokens policy (pieces.map Piece.token) supplied = .ok () := by
    rw [assess_eq policy supplied hs]
    cases checkTokens policy (pieces.map Piece.token) supplied with
    | error reason => exact iff_of_false nofun nofun
    | ok => exact iff_of_true ⟨_, rfl⟩ rfl
  have hunion : checkUnion true (pieces.map Piece.token) = .ok () ↔ ¬ CatalogBehind (pieces.map Piece.token) := by
    rcases checkUnion_catalog (pieces.map Piece.token) with ⟨hbehind, name, hname⟩ | ⟨hnone, hok⟩
    · rw [hname]
      exact iff_of_false nofun (not_not_intro hbehind)
    · exact iff_of_true hok hnone
  rw [haccepted, checkTokens_iff, hallow, hunion]

end Verdicts

/-! ## Two branches -/

def unionWord : Token :=
  ⟨.word, "UNION".toList⟩

def unionOf (a b : String) : String :=
  a ++ " UNION " ++ b

/-- The text is nothing but a statement. -/
def IsStatement (sql : String) : Prop :=
  statement (Scan.ofString sql) = .ok (Scan.ofString sql).pieces

/-- A name of a catalog stands in the branch, and the check does not find it there. -/
def Overlooked (ts : List Token) : Prop :=
  NamesCatalog ts ∧ ¬ CatalogBehind ts

theorem name?_unionWord : unionWord.name? = some "union" := by
  decide +kernel

/-- A name in the second branch is behind the `UNION`, one in the first branch only behind another `UNION`. -/
theorem catalogBehind_union {as bs : List Token} :
    CatalogBehind (as ++ unionWord :: bs) ↔ CatalogBehind as ∨ NamesCatalog bs := by
  have hkeyword : unionWord.isKeyword "union" = true := rfl
  have hname : NamesCatalog (unionWord :: bs) ↔ NamesCatalog bs := by
    rw [namesCatalog_cons, name?_unionWord]
    refine or_iff_right ?_
    rintro ⟨_, ⟨⟩, hcatalog⟩
    exact absurd hcatalog (by decide)
  induction as with
  | nil =>
    rw [List.nil_append, catalogBehind_cons]
    constructor
    · rintro (⟨-, hnames⟩ | hbehind)
      · exact .inr hnames
      · exact .inr hbehind.names
    · rintro (hnone | hnames)
      · exact absurd hnone not_catalogBehind_nil
      · exact .inl ⟨hkeyword, hnames⟩
  | cons a as ih =>
    rw [List.cons_append, catalogBehind_cons, catalogBehind_cons, namesCatalog_append, hname]
    tauto

/-- The pieces of a second branch with the word in front of them. The blank behind the word belongs to the first piece
of the branch. -/
def unionPieces (blanks : List Char) (verb : Piece) (rest : List Piece) : List Piece :=
  ⟨blanks ++ [' '], unionWord⟩ :: ⟨' ' :: verb.blanks, verb.token⟩ :: rest

theorem readable_unionPieces {blanks trailing : List Char} {verb : Piece} {rest : List Piece}
    (hblanks : ∀ c ∈ blanks, isSpace c = true) (h : Readable ⟨verb :: rest, trailing⟩) :
    Readable ⟨unionPieces blanks verb rest, trailing⟩ := by
  obtain ⟨hverb, hlexeme, hrest⟩ := readable_cons.1 h
  refine readable_cons.2 ⟨List.forall_mem_append.2 ⟨hblanks, List.forall_mem_singleton.2 rfl⟩, ?_,
    readable_cons.2 ⟨List.forall_mem_cons.2 ⟨rfl, hverb⟩, hlexeme, hrest⟩⟩
  refine lexeme_word rfl (List.all_eq_true.1 rfl) fun c hc => ?_
  obtain rfl : c = ' ' := Option.some.inj hc.symm
  rfl

theorem isSeparator_unionPieces {blanks trailing : List Char} {verb : Piece} {rest : List Piece}
    (hblanks : ∀ c ∈ blanks, isSpace c = true) :
    ∀ c ∈ (Scan.text ⟨unionPieces blanks verb rest, trailing⟩).head?, isSeparator c = true := by
  rw [unionPieces, text_cons, List.append_assoc]
  exact isSeparator_head? hblanks rfl

section Branches

variable {a b : String} (ha : IsStatement a) (hb : IsStatement b)

include ha in
theorem settled_of_isStatement : (∃ verb ∈ (Scan.ofString a).pieces.head?,
    verb.token.isAnyKeyword ["select", "with"] = true) ∧
      ∀ p ∈ (Scan.ofString a).pieces, Settled p.token ∧ p.token.isPunct ';' = false := by
  obtain ⟨-, -, -, -, -, hverb, hall⟩ := statement_spec ha
  exact ⟨hverb, hall⟩

include ha hb

/-- The branches are read as they are alone, with the word between them. -/
theorem scan_union : ∃ pieces,
    Scan.ofString (unionOf a b) = ⟨(Scan.ofString a).pieces ++ pieces, (Scan.ofString b).trailing⟩ ∧
      pieces.map Piece.token = unionWord :: (Scan.ofString b).tokens := by
  have hreadable : ∀ sql : String, Readable (Scan.ofString sql) := fun sql => readable_ofChars sql.toList
  have htext : ∀ sql : String, sql.toList = (Scan.ofString sql).text := fun sql =>
    (Scan.text_ofChars sql.toList).symm
  have hsettled := (settled_of_isStatement ha).2
  obtain ⟨⟨verb, hverb, -⟩, -⟩ := settled_of_isStatement hb
  obtain ⟨qs, hqs⟩ : ∃ qs, (Scan.ofString b).pieces = verb :: qs := by
    obtain ⟨qs, hqs⟩ := List.head?_eq_some_iff.1 hverb
    exact ⟨qs, hqs⟩
  have hfirst : Readable ⟨(Scan.ofString a).pieces ++ [], (Scan.ofString a).trailing⟩ := by
    rw [List.append_nil]
    exact hreadable a
  have hsecond : Readable ⟨verb :: qs, (Scan.ofString b).trailing⟩ := by
    rw [← hqs]
    exact hreadable b
  have htrailing : ∀ c ∈ (Scan.ofString a).trailing, isSpace c = true := readable_nil.1 (readable_of_append hfirst)
  have hall := readable_append_separator hfirst (readable_unionPieces htrailing hsecond)
    (fun p hp => (hsettled p hp).1.closed) (fun p hp => (hsettled p hp).1.not_lineComment)
    (isSeparator_unionPieces htrailing)
  refine ⟨unionPieces (Scan.ofString a).trailing verb qs, ?_, ?_⟩
  · have hsame : (Scan.ofString b).text = Scan.text ⟨verb :: qs, (Scan.ofString b).trailing⟩ := by
      rw [← hqs]
    have hchars : (unionOf a b).toList = Scan.text ⟨(Scan.ofString a).pieces ++
        unionPieces (Scan.ofString a).trailing verb qs, (Scan.ofString b).trailing⟩ := by
      rw [unionOf, String.toList_append, String.toList_append, htext a, htext b, hsame]
      simp [Scan.text, unionPieces, Piece.text, unionWord]
    rw [Scan.ofString, hchars]
    exact ofChars_text hall
  · rw [Scan.tokens, hqs]
    rfl

theorem tokens_union : (Scan.ofString (unionOf a b)).tokens =
    (Scan.ofString a).tokens ++ unionWord :: (Scan.ofString b).tokens := by
  obtain ⟨pieces, hscan, htokens⟩ := scan_union ha hb
  rw [Scan.tokens, hscan, List.map_append, htokens]
  rfl

theorem isStatement_union : IsStatement (unionOf a b) := by
  obtain ⟨pieces, hscan, htokens⟩ := scan_union ha hb
  obtain ⟨⟨verb, hverb, hselect⟩, hfirst⟩ := settled_of_isStatement ha
  have hsecond := (settled_of_isStatement hb).2
  refine statement_eq ⟨verb, ?_, hselect⟩ fun p hp => ?_
  · rw [hscan]
    exact List.mem_head?_append_of_mem_head? hverb
  · rw [hscan] at hp
    rcases List.mem_append.1 hp with hp | hp
    · exact hfirst p hp
    · have htoken : p.token ∈ unionWord :: (Scan.ofString b).tokens := htokens ▸ List.mem_map_of_mem hp
      rcases List.mem_cons.1 htoken with htoken | htoken
      · rw [htoken]
        exact ⟨⟨nofun, rfl⟩, rfl⟩
      · obtain ⟨q, hq, hsame⟩ := List.mem_map.1 htoken
        rw [← hsame]
        exact hsecond q hq

end Branches

/-- Where unions are allowed, a statement is rejected for a name of a system catalog exactly if the name stands behind
a `UNION`; with such a name in front of all of them it is let pass if it passes the other checks. Two branches can
change places without a difference exactly if neither has a name that is overlooked while the other has none. -/
theorem union_catalog_iff {policy : Policy} (hallow : policy.allowUnion = true) (supplied : Option Nat) :
    (∀ {sql : String} {pieces : List Piece}, statement (Scan.ofString sql) = .ok pieces →
      ((∃ name, assess policy sql supplied = .error (.unionCatalog name)) ↔ CatalogBehind (pieces.map Piece.token)) ∧
      ((∃ out, assess policy sql supplied = .ok out) ↔ ¬ CatalogBehind (pieces.map Piece.token) ∧
        checkWrites (pieces.map Piece.token) = .ok () ∧
          checkParameters (pieces.map Piece.token) supplied = .ok () ∧
            checkRelations policy (pieces.map Piece.token) = .ok ())) ∧
    ∀ {a b : String}, IsStatement a → IsStatement b →
      (((∃ name, assess policy (unionOf a b) supplied = .error (.unionCatalog name)) ↔
          ∃ name, assess policy (unionOf b a) supplied = .error (.unionCatalog name)) ↔
        (Overlooked (Scan.ofString a).tokens → NamesCatalog (Scan.ofString b).tokens) ∧
          (Overlooked (Scan.ofString b).tokens → NamesCatalog (Scan.ofString a).tokens)) := by
  refine ⟨fun hs => ⟨rejected_catalog_iff hallow hs supplied, accepted_union_iff hallow hs supplied⟩,
    fun {a b} ha hb => ?_⟩
  have hrejected : ∀ {a b : String}, IsStatement a → IsStatement b →
      ((∃ name, assess policy (unionOf a b) supplied = .error (.unionCatalog name)) ↔
        CatalogBehind (Scan.ofString a).tokens ∨ NamesCatalog (Scan.ofString b).tokens) := by
    intro a b ha hb
    rw [rejected_catalog_iff hallow (isStatement_union ha hb) supplied, ← catalogBehind_union, ← tokens_union ha hb]
    rfl
  have hfirst := @CatalogBehind.names (Scan.ofString a).tokens
  have hsecond := @CatalogBehind.names (Scan.ofString b).tokens
  rw [hrejected ha hb, hrejected hb ha, Overlooked, Overlooked]
  tauto

/-- A name in the second branch is found, and one in the first branch is not. -/
theorem union_catalog_order :
    let policy : Policy := { allowUnion := true }
    let a := "SELECT name FROM countries"
    let b := "SELECT usename FROM pg_user"
    policy.allowUnion = true ∧ IsStatement a ∧ IsStatement b ∧
      ¬ ((∃ name, assess policy (unionOf a b) none = .error (.unionCatalog name)) ↔
        ∃ name, assess policy (unionOf b a) none = .error (.unionCatalog name)) := by
  intro policy a b
  have hscan : Scan.ofString a = scanWithin 30 a.toList := ofChars_eq_scanWithin 30 (by decide)
  have hscan' : Scan.ofString b = scanWithin 30 b.toList := ofChars_eq_scanWithin 30 (by decide)
  have ha : IsStatement a := by
    rw [IsStatement, hscan]
    decide +kernel
  have hb : IsStatement b := by
    rw [IsStatement, hscan']
    decide +kernel
  have hnone : ¬ NamesCatalog (Scan.ofString a).tokens := by
    rw [← find?_catalog_iff, hscan]
    decide +kernel
  have hoverlooked : Overlooked (Scan.ofString b).tokens := by
    constructor
    · rw [← not_not (a := NamesCatalog _), ← find?_catalog_iff, hscan']
      decide +kernel
    · rcases checkUnion_catalog (Scan.ofString b).tokens with ⟨-, name, herror⟩ | ⟨hbehind, -⟩
      · rw [hscan'] at herror
        have hok : checkUnion true (scanWithin 30 b.toList).tokens = .ok () := by decide +kernel
        rw [hok] at herror
        cases herror
      · exact hbehind
  refine ⟨rfl, ha, hb, fun hsame => hnone ?_⟩
  exact (((union_catalog_iff rfl none).2 ha hb).1 hsame).2 hoverlooked

/-- The first branch reads a system catalog. -/
theorem union_catalog_first :
    let policy : Policy := { allowUnion := true }
    let sql := "SELECT usename FROM pg_user UNION SELECT name FROM countries LIMIT 5"
    assess policy sql none = .ok (sql, none) ∧ (∃ u ∈ (Scan.ofString sql).tokens, u.isKeyword "union" = true) ∧
      NamesCatalog (Scan.ofString sql).tokens := by
  intro policy sql
  have hscan : Scan.ofString sql = scanWithin 70 sql.toList := ofChars_eq_scanWithin 70 (by decide)
  refine ⟨?_, ?_, ?_⟩
  · unfold assess
    rw [hscan]
    decide +kernel
  · rw [hscan]
    decide +kernel
  · rw [← not_not (a := NamesCatalog _), ← find?_catalog_iff, hscan]
    decide +kernel

end SpatialQuery.Safety
