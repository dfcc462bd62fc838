import SpatialQuery.Proofs.Query.Items

/-!
The search for relations, followed through a query (`Tree.passes`): it comes upon each name of a
table that stands where it looks once, and upon no others.
-/

namespace SpatialQuery.Query

open Token Lexical Reads

/-- How often the table is named where the search looks. -/
def sightings (os : List Occurrence) (m : Mention) : Nat :=
  os.countP fun o => o.seen && o.mention == m

theorem sightings_append (os os' : List Occurrence) (m : Mention) :
    sightings (os ++ os') m = sightings os m + sightings os' m :=
  List.countP_append

theorem sightings_cons_unseen (mention : Mention) (scope : List String) (os : List Occurrence)
    (m : Mention) : sightings (⟨mention, scope, false⟩ :: os) m = sightings os m := by
  simp [sightings]

/-- Where the search looks at the items of a list, it comes upon the tables at their fronts. -/
theorem Tree.sightings_seen {p : Part} (t : Tree p) (n : Nat) (scope : List String) (m : Mention) :
    sightings (t.occurrences n scope true) m =
      (t.fronts n).count m + sightings (t.occurrences n scope false) m := by
  induction t generalizing n with
  | table marks name l ih =>
    rw [occurrences, occurrences, sightings_cons_unseen]
    simp only [sightings, fronts, List.countP_cons, List.count_singleton, Bool.true_and]
    omega
  | comma next rest ihn ih =>
    simp only [occurrences, fronts, sightings_append, List.count_append]
    rw [ihn, ih]
    omega
  | _ => simp [occurrences, fronts]

/-! ## Steps of the search -/

section Steps

variable (before : List Token) (here : Bool) (outer : List Bool) (ts : List Token)

theorem mentions_open : mentions before here outer (openParen :: ts) =
    mentions (openParen :: before) false (here :: outer) ts := by
  simp [mentions, openParen, isPunct]

theorem mentions_close (around : Bool) : mentions before here (around :: outer) (closeParen :: ts) =
    mentions (closeParen :: before) around outer ts := by
  simp [mentions, closeParen, isPunct]

theorem mentions_pass {t : Token} (ho : t.isPunct '(' = false) (hc : t.isPunct ')' = false)
    (hk : t.isAnyKeyword ["select", "from", "join", "table"] = false) :
    mentions before here outer (t :: ts) = mentions (t :: before) here outer ts := by
  simp only [isAnyKeyword, List.any_cons, List.any_nil, Bool.or_false, Bool.or_eq_false_iff] at hk
  obtain ⟨hselect, hfrom, hjoin, htable⟩ := hk
  simp [mentions, ho, hc, hselect, hfrom, hjoin, htable]

theorem mentions_quiet {t : Token} (h : isQuiet t = true) :
    mentions before here outer (t :: ts) = mentions (t :: before) here outer ts := by
  obtain ⟨ho, hc, hloud⟩ := isQuiet_iff.1 h
  exact mentions_pass _ _ _ _ ho hc (isAnyKeyword_of_subset hloud (by decide))

theorem mentions_with (w : Keyword ["with"]) :
    mentions before here outer (w.token :: ts) = mentions (w.token :: before) here outer ts :=
  mentions_pass _ _ _ _ (w.isPunct _) (w.isPunct _) (w.isAnyKeyword_false (by decide))

theorem mentions_select (s : Keyword ["select"]) :
    mentions before here outer (s.token :: ts) = mentions (s.token :: before) true outer ts := by
  simp [mentions, s.isKeyword_true]

theorem mentions_from (fr : Keyword ["from"]) : mentions before here outer (fr.token :: ts) =
    (if here && !isDistinctFrom before then fromList true ts else []) ++
      mentions (fr.token :: before) here outer ts := by
  have hselect := fr.isKeyword_false (a := "select") (by decide)
  simp [mentions, fr.isKeyword_true, hselect]

theorem mentions_join (j : Keyword ["join"]) : mentions before here outer (j.token :: ts) =
    fromList false ts ++ mentions (j.token :: before) here outer ts := by
  have hselect := j.isKeyword_false (a := "select") (by decide)
  have hfrom := j.isKeyword_false (a := "from") (by decide)
  simp [mentions, j.isKeyword_true, hselect, hfrom]

end Steps

/-- The word `SELECT` is no part of `IS DISTINCT`. -/
theorem isDistinctFrom_select (ts : List Token) (s : Keyword ["select"]) (before : List Token) :
    isDistinctFrom (ts ++ s.token :: before) = isDistinctFrom ts := by
  have hdistinct := s.isKeyword_false (a := "distinct") (by decide)
  have his := s.isKeyword_false (a := "is") (by decide)
  have hnot := s.isKeyword_false (a := "not") (by decide)
  match ts with
  | [] => cases before <;> simp [isDistinctFrom, hdistinct]
  | [t] => simp [isDistinctFrom, his, hnot]
  | t :: u :: ts => rfl

theorem isDistinctFrom_distinct (is : Keyword ["is", "not"]) (d : Keyword ["distinct"])
    (before : List Token) : isDistinctFrom (d.token :: is.token :: before) = true := by
  have h := is.spelled
  simp only [isAnyKeyword, List.any_cons, List.any_nil, Bool.or_false] at h
  simp [isDistinctFrom, d.isKeyword_true, h]

namespace Tree

/-- A `SELECT` stands in the parentheses around the part. -/
def selects : {p : Part} → Tree p → Bool
  | _, select _ _ => true
  | _, selectFrom _ _ _ _ _ _ => true
  | _, combined left _ _ right => right.selects || left.selects
  | _, last _ _ _ body => body.selects
  | _, define _ _ _ rest => rest.selects
  | _, plain body => body.selects
  | _, withNames _ ds => ds.selects
  | _, withRecursive _ _ ds => ds.selects
  | _, _ => false

/-- Behind a part it is still known whether a `SELECT` stands before. -/
def after {p : Part} (t : Tree p) (here : Bool) : Bool :=
  match p with
  | .body | .definitions _ | .query => t.selects || here
  | _ => here

end Tree

/-- What may stand around a part: arguments of a call are in parentheses of their own, and a list of
items and a query end where the list and the query can. -/
def Part.Fits (here : Bool) (behind : List Token) : Part → Prop
  | .expr inCall => inCall = true → here = false
  | .more _ => Stops behind
  | .body | .definitions _ | .query => Ends behind
  | _ => True

theorem fits_outside (here : Bool) (behind : List Token) : (Part.expr false).Fits here behind :=
  fun h => absurd h Bool.false_ne_true

/-- In the tokens the search sees the occurrences, wherever it comes from. `here` and `here'` say in front
of the tokens and behind them whether it is in a query, and behind them it goes on with that. -/
def Passes (behind : List Token) (here here' : Bool) (ts : List Token) (os : List Occurrence) : Prop :=
  ∀ before outer m, (mentions before here outer (ts ++ behind)).count m =
    sightings os m + (mentions (ts.reverse ++ before) here' outer behind).count m

section Passes

variable {behind ts us : List Token} {here here' inside : Bool} {os os' : List Occurrence}

theorem passes_nil : Passes behind here here [] [] :=
  fun _ _ _ => (Nat.zero_add _).symm

/-- A token at which nothing is seen. -/
theorem Passes.cons (h : Passes behind here' inside ts os) {t : Token}
    (ht : ∀ before outer ts, mentions before here outer (t :: ts) = mentions (t :: before) here' outer ts) :
    Passes behind here inside (t :: ts) os := by
  intro before outer m
  rw [List.cons_append, ht, h, List.reverse_cons, List.append_assoc]
  rfl

theorem Passes.quiet (h : Passes behind here here' ts os) {t : Token} (ht : isQuiet t = true) :
    Passes behind here here' (t :: ts) os :=
  h.cons fun _ _ _ => mentions_quiet _ _ _ _ ht

theorem Quiet.passes (hus : Quiet us) (h : Passes behind here here' ts os) :
    Passes behind here here' (us ++ ts) os := by
  induction us with
  | nil => exact h
  | cons u us ih =>
    exact (ih fun v hv => hus v (List.mem_cons_of_mem u hv)).quiet (hus u List.mem_cons_self)

theorem Passes.withWord (h : Passes behind here here' ts os) (w : Keyword ["with"]) :
    Passes behind here here' (w.token :: ts) os :=
  h.cons fun _ _ _ => mentions_with _ _ _ _ w

theorem Passes.select (h : Passes behind true here' ts os) (s : Keyword ["select"]) :
    Passes behind here here' (s.token :: ts) os :=
  h.cons fun _ _ _ => mentions_select _ _ _ _ s

/-- In the arguments of a call `FROM` begins no list. -/
theorem Passes.argument (h : Passes behind false here' ts os) (fr : Keyword ["from"]) :
    Passes behind false here' (fr.token :: ts) os := by
  refine h.cons fun before outer ts => ?_
  rw [mentions_from, Bool.false_and, if_neg Bool.false_ne_true, List.nil_append]

theorem Passes.distinct (h : Passes behind here here' ts os) (is : Keyword ["is", "not"])
    (d : Keyword ["distinct"]) (fr : Keyword ["from"]) :
    Passes behind here here' (is.token :: d.token :: fr.token :: ts) os := by
  intro before outer m
  simp only [List.cons_append]
  rw [mentions_quiet _ _ _ _ (is.isQuiet (by decide)), mentions_quiet _ _ _ _ (d.isQuiet (by decide)),
    mentions_from, isDistinctFrom_distinct, Bool.not_true, Bool.and_false, if_neg Bool.false_ne_true,
    List.nil_append, h]
  simp only [List.reverse_cons, List.append_assoc, List.cons_append, List.nil_append]

/-- A table that is named where the search does not look. -/
theorem Passes.unseen (h : Passes behind here here' ts os) (mention : Mention) (scope : List String) :
    Passes behind here here' ts (⟨mention, scope, false⟩ :: os) := by
  intro before outer m
  rw [sightings_cons_unseen, h]

theorem Passes.append (h : Passes (us ++ behind) here inside ts os) (h' : Passes behind inside here' us os') :
    Passes behind here here' (ts ++ us) (os ++ os') := by
  intro before outer m
  rw [List.append_assoc, h, h', sightings_append, Nat.add_assoc, List.reverse_append, List.append_assoc]

/-- Behind a group the search is where it was in front of it. -/
theorem Passes.group (h : Passes (closeParen :: (us ++ behind)) false inside ts os)
    (h' : Passes behind here here' us os') :
    Passes behind here here' (openParen :: (ts ++ closeParen :: us)) (os ++ os') := by
  intro before outer m
  simp only [List.cons_append, List.append_assoc]
  rw [mentions_open, h, mentions_close, h', sightings_append, Nat.add_assoc]
  simp only [List.reverse_cons, List.reverse_append, List.append_assoc, List.cons_append, List.nil_append]

/-- The item behind a `JOIN` is looked at. -/
theorem Passes.join {right : Tree .item} {n : Nat} {scope : List String}
    (hright : Passes (ts ++ behind) here here right.tokens (right.occurrences n scope false))
    (h : Passes behind here here' ts os) (hn : (ts ++ behind).length = n) (hstops : Stops (ts ++ behind))
    (k : Keyword ["join"]) :
    Passes behind here here' (k.token :: (right.tokens ++ ts)) (right.occurrences n scope true ++ os) := by
  intro before outer m
  simp only [List.cons_append, List.append_assoc]
  rw [mentions_join, List.count_append, fromList_joined right hstops, hright, h, hn, sightings_append,
    right.sightings_seen]
  simp only [List.reverse_cons, List.reverse_append, List.append_assoc, List.cons_append, List.nil_append,
    Nat.add_assoc]

/-- The items of a `FROM` list are looked at, up to the first join, unless the word is taken for the end of
`IS DISTINCT FROM`. -/
theorem Passes.fromItems {list : Tree (.expr false)} {first : Tree .item} {more : Tree (.more true)}
    {n : Nat} {scope : List String} (fr : Keyword ["from"])
    (hlist : Passes (fr.token :: (first.tokens ++ (more.tokens ++ ts)) ++ behind) true true list.tokens os')
    (hfirst : Passes (more.tokens ++ ts ++ behind) true true first.tokens
      (first.occurrences (more.size + n) scope false))
    (hmore : Passes (ts ++ behind) true true more.tokens (more.occurrences n scope false))
    (h : Passes behind true here' ts os) (hn : (ts ++ behind).length = n) (hends : Ends (ts ++ behind))
    (k : Keyword ["select"]) :
    let read := !isDistinctFrom list.tokens.reverse
    Passes behind here here'
      (k.token :: (list.tokens ++ fr.token :: (first.tokens ++ (more.tokens ++ ts))))
      (os' ++ (first.occurrences (more.size + n) scope read ++ (more.occurrences n scope read ++ os))) := by
  intro read before outer m
  have hitems := fromList_items more rfl first hends.1 hends.2
  simp only [List.cons_append, List.append_assoc] at hlist hfirst ⊢
  rw [mentions_select, hlist, mentions_from, isDistinctFrom_select, List.count_append, hitems, hfirst, hmore, h,
    hn]
  simp only [sightings_append, List.reverse_cons, List.reverse_append, List.append_assoc, List.cons_append,
    List.nil_append]
  -- the tables at the fronts are read with the list, not where the search comes to them
  subst read
  cases isDistinctFrom list.tokens.reverse with
  | false =>
    rw [Bool.not_false, Bool.and_self, if_pos rfl, first.sightings_seen, more.sightings_seen,
      List.count_append]
    omega
  | true =>
    rw [Bool.not_true, Bool.and_false, if_neg Bool.false_ne_true, List.count_nil]
    omega

end Passes

theorem Tree.passes {p : Part} (t : Tree p) {here : Bool} {behind : List Token} {n : Nat}
    (hn : behind.length = n) (hfit : p.Fits here behind) (scope : List String) :
    Passes behind here (t.after here) t.tokens (t.occurrences n scope false) := by
  induction t generalizing here behind n scope with
  | done | noColumns | noLabel | noClause | stop => exact passes_nil
  | word w rest ih => exact (ih hn hfit scope).quiet w.quiet
  | distinct is d fr rest ih => exact (ih hn hfit scope).distinct is d fr
  | zone w time z rest ih =>
    exact (((ih hn hfit scope).quiet (z.isQuiet (by decide))).quiet (time.isQuiet (by decide))).withWord w
  | argument fr rest ih =>
    obtain rfl : here = false := hfit rfl
    exact (ih hn (fun _ => rfl) scope).argument fr
  | group inner rest ihi ih =>
    exact (ihi (by simp [size, hn]) (fun _ => rfl) scope).group (ih hn hfit scope)
  | subquery q rest ihq ih =>
    exact (ihq (by simp [size, hn]) (ends_close _) scope).group (ih hn hfit scope)
  | columns inner ih =>
    have h : Passes behind here here (columns inner).tokens (inner.occurrences (n + 1) scope false ++ []) :=
      (ih (by simp [hn]) (fun _ => rfl) scope).group passes_nil
    rwa [List.append_nil] at h
  | label as single name cs ih =>
    exact (quiet_keywordTokens (by decide) as).passes ((ih hn trivial scope).quiet name.isQuiet)
  | table marks name l ih =>
    exact .unseen ((quiet_keywordTokens (by decide) marks).passes
      (name.quiet.passes (ih hn trivial scope))) _ _
  | call marks name args l iha ih =>
    exact (quiet_keywordTokens (by decide) marks).passes
      (name.quiet.passes (.group (iha (by simp [size, hn]) (fun _ => rfl) scope) (ih hn trivial scope)))
  | derived marks q l ihq ih =>
    exact (quiet_keywordTokens (by decide) marks).passes
      ((ihq (by simp [size, hn]) (ends_close _) scope).group (ih hn trivial scope))
  | nested first joins l ihf ihj ih =>
    have hjoins := @ihj false (closeParen :: (l.tokens ++ behind)) (l.size + n + 1) (by simp [size, hn])
      (stops_close _) scope
    have hinside : Passes (closeParen :: (l.tokens ++ behind)) false false (first.tokens ++ joins.tokens) _ :=
      .append (ihf (n := joins.size + (l.size + n + 1)) (by simp [size, hn]) trivial scope) hjoins
    have h : Passes behind here here _ _ := hinside.group (ih hn trivial scope)
    rwa [List.append_assoc, List.append_assoc] at h
  | clause k e ih =>
    exact (ih hn (fits_outside _ _) scope).quiet (k.isQuiet (apart_openings _))
  | join kind k right condition rest ihr ihc ih =>
    have hstop : Stops behind := hfit
    have hrest : Passes behind here here _ _ :=
      (ihc (n := rest.size + n) (by simp [size, hn]) trivial scope).append (ih hn hstop scope)
    have hstops : Stops (condition.tokens ++ rest.tokens ++ behind) := by
      rw [List.append_assoc]
      exact condition.stops_clause (rest.stops_more hstop)
    exact (quiet_keywordTokens (by decide) kind.words).passes
      (.join (ihr (by simp [size, hn]) trivial scope) hrest (by simp [size, hn]) hstops k)
  | comma next rest ihn ih =>
    exact ((ihn (by simp [size, hn]) trivial scope).append (ih hn hfit scope)).quiet isQuiet_comma
  | select s list ih => exact (ih hn (fits_outside _ _) scope).select s
  | selectFrom s list fr first more clauses ihl ihf ihm ih =>
    have hends : Ends (clauses.tokens ++ behind) := clauses.ends_clause hfit
    exact .fromItems fr (ihl (by simp [size, hn]) (fits_outside _ _) scope)
      (ihf (by simp [size, hn]) trivial scope) (ihm (by simp [size, hn]) hends.1 scope)
      (ih hn trivial scope) (by simp [size, hn]) hends s
  | operand q clauses ihq ih =>
    exact (ihq (by simp [size, hn]) (ends_close _) scope).group (ih hn trivial scope)
  | combined left op mode right ihl ih =>
    have hend : Ends behind := hfit
    have hafter : (combined left op mode right).after here = right.after (left.after here) :=
      Bool.or_assoc ..
    rw [hafter]
    exact .append (ihl (by simp [size, hn, length_keywordTokens]) (op.ends (by decide) _) scope)
      (.quiet ((quiet_keywordTokens (by decide) mode).passes (ih hn hend scope)) (op.isQuiet (by decide)))
  | last d cs q body ihc ihq ih =>
    have hend : Ends behind := hfit
    refine .quiet (.append (ihc (by simp [size, hn]) trivial _) (d.quiet_words.passes ?_)) d.name.isQuiet
    exact .group (ihq (by simp [size, hn]) (ends_close _) _) (ih hn hend _)
  | define d cs q rest ihc ihq ih =>
    have hend : Ends behind := hfit
    refine .quiet (.append (ihc (by simp [size, hn]) trivial _) (d.quiet_words.passes ?_)) d.name.isQuiet
    exact .group (ihq (by simp [size, hn]) (ends_close _) _) ((ih hn hend _).quiet isQuiet_comma)
  | plain body ih => exact ih hn hfit scope
  | withNames w ds ih => exact (ih hn hfit scope).withWord w
  | withRecursive w r ds ih =>
    exact ((ih hn hfit scope).quiet (r.isQuiet (by decide))).withWord w

end SpatialQuery.Query
