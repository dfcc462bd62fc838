import SpatialQuery.Proofs.Query.Groups

/-!
The names that the `WITH` clauses of a query define, as the search for them finds them in the tokens
(`Tree.binds`).
-/

namespace SpatialQuery.Query

open Token Lexical Reads

namespace Tree

/-- The names that these definitions define, with `behind` tokens behind their query. -/
def heads : {p : Part} → Tree p → (behind : Nat) → List Binding
  | _, @last r d cs q body, n =>
    [⟨d.name.name, if r then (last (r := r) d cs q body).size + n else body.size + n, n⟩]
  | _, @define r d cs q rest, n =>
    ⟨d.name.name, if r then (define (r := r) d cs q rest).size + n else rest.size + n + 1, n⟩ ::
      rest.heads n
  | _, _, _ => []

/-- The names that the `WITH` clauses inside define, with `behind` tokens behind. -/
def own : {p : Part} → Tree p → (behind : Nat) → List Binding
  | _, done, _ => []
  | _, word _ rest, n => rest.own n
  | _, distinct _ _ _ rest, n => rest.own n
  | _, zone _ _ _ rest, n => rest.own n
  | _, argument _ rest, n => rest.own n
  | _, group inner rest, n => inner.own (rest.size + n + 1) ++ rest.own n
  | _, subquery q rest, n => q.own (rest.size + n + 1) ++ rest.own n
  | _, noColumns, _ => []
  | _, columns inner, n => inner.own (n + 1)
  | _, noLabel, _ => []
  | _, label _ _ _ cs, n => cs.own n
  | _, table _ _ l, n => l.own n
  | _, call _ _ args l, n => args.own (l.size + n + 1) ++ l.own n
  | _, derived _ q l, n => q.own (l.size + n + 1) ++ l.own n
  | _, nested first joins l, n =>
    first.own (joins.size + (l.size + n + 1)) ++ (joins.own (l.size + n + 1) ++ l.own n)
  | _, noClause, _ => []
  | _, clause _ e, n => e.own n
  | _, stop, _ => []
  | _, join _ _ right condition rest, n =>
    right.own (condition.size + (rest.size + n)) ++ (condition.own (rest.size + n) ++ rest.own n)
  | _, comma next rest, n => next.own (rest.size + n) ++ rest.own n
  | _, select _ list, n => list.own n
  | _, selectFrom _ list _ first more clauses, n =>
    list.own (first.size + (more.size + (clauses.size + n)) + 1) ++
      (first.own (more.size + (clauses.size + n)) ++ (more.own (clauses.size + n) ++ clauses.own n))
  | _, operand q clauses, n => q.own (clauses.size + n + 1) ++ clauses.own n
  | _, combined left _ mode right, n =>
    left.own (mode.length + (right.size + n) + 1) ++ right.own n
  | _, last d cs q body, n =>
    cs.own (d.words.length + (q.size + (body.size + n + 1) + 1)) ++
      (q.own (body.size + n + 1) ++ body.own n)
  | _, define d cs q rest, n =>
    cs.own (d.words.length + (q.size + (rest.size + n + 1 + 1) + 1)) ++
      (q.own (rest.size + n + 1 + 1) ++ rest.own n)
  | _, plain body, n => body.own n
  | _, withNames _ ds, n => ds.heads n ++ ds.own n
  | _, withRecursive _ _ ds, n => ds.heads n ++ ds.own n

end Tree

/-! ## Definitions -/

theorem skipToken_keywordTokens {a : String} {ks : List (Keyword [a])} (hks : ks.length ≤ 1)
    {rest : List Token} (hrest : ∀ t ∈ rest.head?, t.isKeyword a = false) :
    skipToken (·.isKeyword a) (keywordTokens ks ++ rest) = rest := by
  match ks, hks with
  | [], _ =>
    cases rest with
    | nil => rfl
    | cons t rest =>
      have ht := hrest t rfl
      simp [keywordTokens, skipToken, ht]
  | [k], _ => simp [keywordTokens, skipToken, k.isKeyword_true]

theorem isKeyword_openParen (a : String) : openParen.isKeyword a = false := rfl

theorem skipGroup_columns (cs : Tree .columns) {rest : List Token}
    (hrest : ∀ t ∈ rest.head?, t.isPunct '(' = false) : skipGroup (cs.tokens ++ rest) = rest := by
  cases cs with
  | noColumns =>
    cases rest with
    | nil => rfl
    | cons t rest =>
      have ht := hrest t rfl
      simp [Tree.tokens, skipGroup, ht]
  | columns inner =>
    have h := leaveGroup_group inner.balanced rest
    simpa [Tree.tokens, skipGroup, openParen, Token.isPunct] using h

theorem afterBinding?_words (cs : Tree .columns) (d : Definition) {ts : List Token}
    (h : Balanced ts) (k : List Token) :
    afterBinding? (cs.tokens ++ (d.words ++ openParen :: (ts ++ closeParen :: k))) = some k := by
  have hmat : skipToken (·.isKeyword "materialized")
      (keywordTokens d.materialized ++ openParen :: (ts ++ closeParen :: k)) =
        openParen :: (ts ++ closeParen :: k) :=
    skipToken_keywordTokens d.single.2 (by simp [isKeyword_openParen])
  have hnot : skipToken (·.isKeyword "not") (keywordTokens d.not ++
      (keywordTokens d.materialized ++ openParen :: (ts ++ closeParen :: k))) =
        keywordTokens d.materialized ++ openParen :: (ts ++ closeParen :: k) := by
    refine skipToken_keywordTokens d.single.1 ?_
    cases d.materialized with
    | nil => simp [keywordTokens, isKeyword_openParen]
    | cons m ms =>
      have hm := m.isKeyword_false (a := "not") (by decide)
      simp [keywordTokens, hm]
  have hgroup := leaveGroup_group h k
  rw [Definition.words, List.cons_append, List.append_assoc, afterBinding?,
    skipGroup_columns cs (by simp)]
  simp only [d.as.isKeyword_true, ↓reduceIte, hnot, hmat, hgroup]
  rfl

theorem bindingList_cons {isRecursive : Bool} {stop : Nat} {t : Token} {rest behind : List Token}
    {name : String} (hname : t.name? = some name) (hbehind : afterBinding? rest = some behind) :
    bindingList isRecursive stop (t :: rest) =
      ⟨name, if isRecursive then rest.length + 1 else behind.length, stop⟩ ::
        match behind with
        | u :: more => if u.isPunct ',' then bindingList isRecursive stop more else []
        | [] => [] := by
  rw [bindingList]
  split
  · rename_i h
    rw [hname] at h
    cases h
  · rename_i h
    rw [hname] at h
    cases h
    split
    · rename_i h
      rw [hbehind] at h
      cases h
    · rename_i h
      rw [hbehind] at h
      cases h
      cases behind <;> rfl

theorem bindingList_last {isRecursive : Bool} {stop : Nat} {t : Token} {rest behind : List Token}
    {name : String} (hname : t.name? = some name) (hbehind : afterBinding? rest = some behind)
    (hcomma : ∀ u ∈ behind.head?, u.isPunct ',' = false) :
    bindingList isRecursive stop (t :: rest) =
      [⟨name, if isRecursive then rest.length + 1 else behind.length, stop⟩] := by
  rw [bindingList_cons hname hbehind]
  cases behind with
  | nil => rfl
  | cons u more => simp [hcomma u rfl]

/-- The query behind the definitions does not go on with a comma. -/
theorem Tree.no_comma {p : Part} (b : Tree p) (hp : p = .body) (k : List Token) :
    ∀ t ∈ (b.tokens ++ k).head?, t.isPunct ',' = false := by
  induction b generalizing k with
  | select s list => simp [tokens]
  | selectFrom s list fr first more clauses => simp [tokens]
  | operand q clauses => simp [tokens, openParen, Token.isPunct]
  | combined left op mode right ihl _ =>
    rw [tokens, List.append_assoc]
    exact ihl rfl _
  | _ => cases hp

theorem Tree.bindingList_tokens {p : Part} (ds : Tree p) {isRecursive : Bool}
    (hp : p = .definitions isRecursive) (k : List Token) :
    bindingList isRecursive k.length (ds.tokens ++ k) = ds.heads k.length := by
  induction ds with
  | last d cs q body =>
    cases hp
    have hbehind := afterBinding?_words cs d q.balanced (body.tokens ++ k)
    have hlength : (cs.tokens ++ (d.words ++ openParen ::
        (q.tokens ++ closeParen :: (body.tokens ++ k)))).length + 1 =
          (@last isRecursive d cs q body).size + k.length := by
      simp only [size, tokens, List.length_append, List.length_cons]
      omega
    simp only [tokens, List.cons_append, List.append_assoc]
    rw [bindingList_last d.name.name?_eq hbehind (body.no_comma rfl k), hlength, heads,
      List.length_append, size.eq_def body]
  | define d cs q rest _ _ ih =>
    cases hp
    have hbehind := afterBinding?_words cs d q.balanced (Query.comma :: (rest.tokens ++ k))
    have hlength : (cs.tokens ++ (d.words ++ openParen ::
        (q.tokens ++ closeParen :: Query.comma :: (rest.tokens ++ k)))).length + 1 =
          (@define isRecursive d cs q rest).size + k.length := by
      simp only [size, tokens, List.length_append, List.length_cons]
      omega
    have hcomma : Query.comma.isPunct ',' = true := rfl
    simp only [tokens, List.cons_append, List.append_assoc]
    rw [bindingList_cons d.name.name?_eq hbehind, hlength, heads, List.length_cons,
      List.length_append]
    simp only [hcomma, ↓reduceIte, ih rfl, size]
  | _ => cases hp

/-! ## All names -/

theorem bindings_cons {t : Token} (h : t.isKeyword "with" = false) (ts : List Token) :
    bindings (t :: ts) = bindings ts := by
  simp [bindings, h]

theorem bindings_with (w : Keyword ["with"]) {ts : List Token}
    (h : ∀ t ∈ ts.head?, t.isKeyword "recursive" = false) :
    bindings (w.token :: ts) = bindingList false (groupEnd 0 ts).length ts ++ bindings ts := by
  cases ts with
  | nil => simp [bindings, w.isKeyword_true, skipToken]
  | cons t ts =>
    have ht := h t rfl
    simp [bindings, w.isKeyword_true, skipToken, ht]

theorem bindings_with_recursive (w : Keyword ["with"]) (r : Keyword ["recursive"])
    (ts : List Token) : bindings (w.token :: r.token :: ts) =
      bindingList true (groupEnd 0 ts).length ts ++ bindings ts := by
  have hr := r.isKeyword_true
  have hwith := r.isKeyword_false (a := "with") (by decide)
  have hend : groupEnd 0 (r.token :: ts) = groupEnd 0 ts := r.balanced balanced_nil 0 ts
  simp [bindings, w.isKeyword_true, skipToken, hr, hwith, hend]

/-- Nothing but the end of the group follows. -/
def AtEnd (k : List Token) : Prop :=
  ∀ t ∈ k.head?, t.isPunct ')' = true

theorem atEnd_nil : AtEnd [] :=
  nofun

theorem AtEnd.groupEnd {k : List Token} (h : AtEnd k) : groupEnd 0 k = k := by
  cases k with
  | nil => rfl
  | cons t k =>
    have ht := h t rfl
    have hopen : t.isPunct '(' = false := by
      rw [Token.isPunct, beq_iff_eq] at ht
      simp [Token.isPunct, ht]
    rw [groupEnd.eq_def]
    simp only [hopen, ht, Bool.false_eq_true, ↓reduceIte]

theorem atEnd_close (ts : List Token) : AtEnd (closeParen :: ts) := by
  simp [AtEnd, closeParen, Token.isPunct]

theorem Tree.not_recursive {p : Part} (ds : Tree p) (hp : p = .definitions false) (k : List Token) :
    ∀ t ∈ (ds.tokens ++ k).head?, t.isKeyword "recursive" = false := by
  cases ds with
  | last d cs q body => simp [tokens, d.notRecursive]
  | define d cs q rest => simp [tokens, d.notRecursive]
  | _ => cases hp

/-- What follows the name `TIME` is no definition of it. -/
theorem bindings_zone (w : Keyword ["with"]) (time : Keyword ["time"]) (zone : Keyword ["zone"])
    (ts : List Token) :
    bindings (w.token :: time.token :: zone.token :: ts) = bindings ts := by
  have htime := time.isKeyword_false (a := "recursive") (by decide)
  have hzone := zone.isKeyword_false (a := "as") (by decide)
  have hafter : afterBinding? (zone.token :: ts) = none := by
    simp [afterBinding?, skipGroup, hzone]
  have hlist (stop : Nat) : bindingList false stop (time.token :: zone.token :: ts) = [] := by
    rw [bindingList]
    split
    · rfl
    · split
      · rfl
      · rename_i h
        rw [hafter] at h
        cases h
  have htimeWith := time.isKeyword_false (a := "with") (by decide)
  have hzoneWith := zone.isKeyword_false (a := "with") (by decide)
  rw [bindings_with w (by simp [htime]), hlist, bindings_cons htimeWith, bindings_cons hzoneWith,
    List.nil_append]

/-- In the tokens the search finds the bindings, and behind them it goes on as from there. -/
def Binds (behind ts : List Token) (ds : List Binding) : Prop :=
  bindings (ts ++ behind) = ds ++ bindings behind

section Binds

variable {behind ts us : List Token} {ds es : List Binding}

theorem binds_nil : Binds behind [] [] := rfl

theorem Binds.cons (h : Binds behind ts ds) {t : Token} (ht : t.isKeyword "with" = false) :
    Binds behind (t :: ts) ds := by
  unfold Binds at *
  rw [List.cons_append, bindings_cons ht, h]

theorem Binds.quiet (h : Binds behind ts ds) {t : Token} (ht : isQuiet t = true) :
    Binds behind (t :: ts) ds :=
  h.cons (isKeyword_of_isAnyKeyword (isQuiet_iff.1 ht).2.2 (by decide))

theorem Binds.keyword (h : Binds behind ts ds) {words : List String} (k : Keyword words)
    (hk : apart words ["with"] = true) : Binds behind (k.token :: ts) ds :=
  h.cons (k.isKeyword_false hk)

theorem Quiet.binds (hus : Quiet us) (h : Binds behind ts ds) : Binds behind (us ++ ts) ds := by
  induction us with
  | nil => exact h
  | cons u us ih =>
    exact (ih fun v hv => hus v (List.mem_cons_of_mem u hv)).quiet (hus u List.mem_cons_self)

theorem Binds.append (h : Binds (us ++ behind) ts ds) (h' : Binds behind us es) :
    Binds behind (ts ++ us) (ds ++ es) := by
  unfold Binds at *
  rw [List.append_assoc, h, h', List.append_assoc]

theorem Binds.opened (h : Binds behind ts ds) : Binds behind (openParen :: ts) ds :=
  h.cons rfl

theorem Binds.closed (h : Binds behind ts ds) : Binds behind (closeParen :: ts) ds :=
  h.cons rfl

theorem Binds.group (h : Binds (closeParen :: (us ++ behind)) ts ds) (h' : Binds behind us es) :
    Binds behind (openParen :: (ts ++ closeParen :: us)) (ds ++ es) :=
  (h.append h'.closed).opened

theorem Binds.zone (h : Binds behind ts ds) (w : Keyword ["with"]) (time : Keyword ["time"])
    (zone : Keyword ["zone"]) : Binds behind (w.token :: time.token :: zone.token :: ts) ds :=
  (bindings_zone w time zone _).trans h

end Binds

/-- The names of a `WITH` clause are in scope up to the end of its query. -/
theorem Tree.bindingList_definitions {r : Bool} (ds : Tree (.definitions r)) {behind : List Token}
    (hend : AtEnd behind) :
    bindingList r (groupEnd 0 (ds.tokens ++ behind)).length (ds.tokens ++ behind) =
      ds.heads behind.length := by
  rw [ds.balanced, hend.groupEnd, ds.bindingList_tokens rfl]

theorem Binds.withNames {behind : List Token} {ds : Tree (.definitions false)} {es : List Binding}
    (h : Binds behind ds.tokens es) (hend : AtEnd behind) (w : Keyword ["with"]) :
    Binds behind (w.token :: ds.tokens) (ds.heads behind.length ++ es) := by
  unfold Binds at *
  rw [List.cons_append, bindings_with w (ds.not_recursive rfl behind),
    ds.bindingList_definitions hend, h, List.append_assoc]

theorem Binds.withRecursive {behind : List Token} {ds : Tree (.definitions true)} {es : List Binding}
    (h : Binds behind ds.tokens es) (hend : AtEnd behind) (w : Keyword ["with"])
    (r : Keyword ["recursive"]) :
    Binds behind (w.token :: r.token :: ds.tokens) (ds.heads behind.length ++ es) := by
  unfold Binds at *
  rw [List.cons_append, List.cons_append, bindings_with_recursive,
    ds.bindingList_definitions hend, h, List.append_assoc]

theorem Tree.binds {p : Part} (t : Tree p) {behind : List Token} {n : Nat}
    (hn : behind.length = n) (hend : p = .query → AtEnd behind) :
    Binds behind t.tokens (t.own n) := by
  -- a query in parentheses ends where its group does
  have hclose (ts : List Token) : Part.query = .query → AtEnd (closeParen :: ts) :=
    fun _ => atEnd_close ts
  induction t generalizing behind n with
  | done | noColumns | noLabel | noClause | stop => exact binds_nil
  | word w rest ih => exact (ih hn nofun).quiet w.quiet
  | distinct is d fr rest ih =>
    exact (((ih hn nofun).keyword fr (by decide)).keyword d (by decide)).keyword is (by decide)
  | zone w time z rest ih => exact (ih hn nofun).zone w time z
  | argument fr rest ih => exact (ih hn nofun).keyword fr (by decide)
  | group inner rest ihi ih => exact (ihi (by simp [size, hn]) nofun).group (ih hn nofun)
  | subquery q rest ihq ih | operand q rest ihq ih =>
    exact (ihq (by simp [size, hn]) (hclose _)).group (ih hn nofun)
  | columns inner ih =>
    have h : Binds behind (columns inner).tokens (inner.own (n + 1) ++ []) :=
      (ih (by simp [hn]) nofun).group binds_nil
    rwa [List.append_nil] at h
  | label as single name cs ih =>
    exact (quiet_keywordTokens (by decide) as).binds ((ih hn nofun).quiet name.isQuiet)
  | table marks name l ih =>
    exact (quiet_keywordTokens (by decide) marks).binds (name.quiet.binds (ih hn nofun))
  | call marks name args l iha ih =>
    exact (quiet_keywordTokens (by decide) marks).binds
      (name.quiet.binds ((iha (by simp [size, hn]) nofun).group (ih hn nofun)))
  | derived marks q l ihq ih =>
    exact (quiet_keywordTokens (by decide) marks).binds
      ((ihq (by simp [size, hn]) (hclose _)).group (ih hn nofun))
  | nested first joins l ihf ihj ih =>
    have hjoins := (ihj (n := l.size + n + 1) (by simp [size, hn]) nofun).append (ih hn nofun).closed
    exact ((ihf (by simp [size, hn]) nofun).append hjoins).opened
  | clause k e ih => exact (ih hn nofun).quiet (k.isQuiet (apart_openings _))
  | join kind k right condition rest ihr ihc ih =>
    have hcondition := (ihc (n := rest.size + n) (by simp [size, hn]) nofun).append (ih hn nofun)
    exact (quiet_keywordTokens (by decide) kind.words).binds
      (((ihr (by simp [size, hn]) nofun).append hcondition).keyword k (by decide))
  | comma next rest ihn ih =>
    exact ((ihn (by simp [size, hn]) nofun).append (ih hn nofun)).quiet isQuiet_comma
  | select k list ih => exact (ih hn nofun).keyword k (by decide)
  | selectFrom k list fr first more clauses ihl ihf ihm ih =>
    have hmore := (ihm (n := clauses.size + n) (by simp [size, hn]) nofun).append (ih hn nofun)
    have hfirst := (ihf (n := more.size + (clauses.size + n)) (by simp [size, hn]) nofun).append hmore
    exact ((ihl (by simp [size, hn]) nofun).append (hfirst.keyword fr (by decide))).keyword k (by decide)
  | combined left op mode right ihl ih =>
    have hright := (quiet_keywordTokens (by decide) mode).binds (ih hn nofun)
    exact (ihl (by simp [size, hn, length_keywordTokens]) nofun).append
      (hright.keyword op (by decide))
  | last d cs q body ihc ihq ih =>
    have hq := (ihq (n := body.size + n + 1) (by simp [size, hn]) (hclose _)).group (ih hn nofun)
    exact ((ihc (by simp [size, hn]) nofun).append (d.quiet_words.binds hq)).quiet d.name.isQuiet
  | define d cs q rest ihc ihq ih =>
    have hq := (ihq (n := rest.size + n + 1 + 1) (by simp [size, hn]) (hclose _)).group
      ((ih hn nofun).quiet isQuiet_comma)
    exact ((ihc (by simp [size, hn]) nofun).append (d.quiet_words.binds hq)).quiet d.name.isQuiet
  | plain body ih => exact ih hn nofun
  | withNames w ds ih =>
    subst hn
    exact (ih rfl nofun).withNames (hend rfl) w
  | withRecursive w r ds ih =>
    subst hn
    exact (ih rfl nofun).withRecursive (hend rfl) w r

theorem Tree.bindings_query (q : Tree .query) : bindings q.tokens = q.own 0 := by
  have h := q.binds rfl fun _ => atEnd_nil
  simpa [Binds, bindings] using h

end SpatialQuery.Query
