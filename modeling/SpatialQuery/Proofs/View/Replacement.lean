import SpatialQuery.Proofs.Lexical.Agreement
import SpatialQuery.Proofs.View.Filling

/-!
The pass over the text of a view. Where no reference stands outside of the placeholders, it puts the
tokens of the values in their places (`substitute_view`); where one does, percent signs get lost
(`count_substitute_view`).
-/

namespace SpatialQuery.View

open Token Lexical

/-- Characters of references. -/
def isReferencePart (c : Char) : Bool :=
  c == '%' || c == 'p' || c.isDigit

theorem isReferencePart_of_mem {n : Nat} : ∀ c ∈ referenceTo n, isReferencePart c = true := by
  intro c hc
  simp only [referenceTo, List.mem_cons, List.mem_append, List.not_mem_nil, or_false] at hc
  rcases hc with rfl | rfl | hc | rfl
  · rfl
  · rfl
  · simp [isReferencePart, Text.isDigit_ofNat c hc]
  · rfl

/-! ## Where no reference goes beyond a token -/

variable {fs : Assignment} (hn : Numbered fs)
include hn

theorem Clean.of_not_mem {cs rest : List Char} (h : '%' ∉ cs) : Clean fs cs rest := by
  rintro ds es rfl hne f hf hp
  obtain ⟨i, -, href⟩ := hn.exists_of_mem hf
  obtain ⟨e, es, rfl⟩ := List.exists_cons_of_ne_nil hne
  rw [href, referenceTo, List.cons_append, List.cons_prefix_cons] at hp
  exact absurd (by simp [← hp.1]) h

theorem Unreferenced.of_not_mem {cs : List Char} (h : '%' ∉ cs) : Unreferenced fs cs := by
  rintro ds es rfl f hf hp
  obtain ⟨i, -, href⟩ := hn.exists_of_mem hf
  rw [href] at hp
  exact h (List.mem_append_right _ (hp.mem (by simp [referenceTo])))

/-- No reference goes beyond a character that is no part of references. -/
theorem Clean.of_getLast {cs rest : List Char} {c : Char} (h : isReferencePart c = false) :
    Clean fs (cs ++ [c]) rest := by
  rintro ds es he hne f hf hp
  rcases prefix_append_cases hp with hp | ⟨d, -, qs, hq⟩
  · exact hp
  obtain ⟨i, -, href⟩ := hn.exists_of_mem hf
  have hc : c ∈ es := by
    rw [← List.dropLast_concat_getLast hne, ← List.append_assoc] at he
    have hlast := congrArg List.getLast? he
    rw [List.getLast?_concat, List.getLast?_concat, Option.some.injEq] at hlast
    rw [hlast]
    exact List.getLast_mem hne
  have hpart := isReferencePart_of_mem (n := i + 1) c (by rw [← href, hq]; simp [hc])
  rw [h] at hpart
  cases hpart

theorem Clean.of_head {cs rest : List Char} (h : ∀ c ∈ rest.head?, isReferencePart c = false) :
    Clean fs cs rest := by
  rintro ds es rfl hne f hf hp
  rcases prefix_append_cases hp with hp | ⟨d, hd, qs, hq⟩
  · exact hp
  obtain ⟨i, -, href⟩ := hn.exists_of_mem hf
  have hpart := isReferencePart_of_mem (n := i + 1) d (by rw [← href, hq]; simp)
  rw [h d hd] at hpart
  cases hpart

omit hn in
theorem closes_getLast {o : Opening} {body rest : List Char} (h : o.Closes body rest) :
    ∃ ds c, body = ds ++ [c] ∧ isReferencePart c = false := by
  have hmarks : ∀ c ∈ closingMarks, isReferencePart c = false := by simp [closingMarks, isReferencePart]
  obtain ⟨ds, c, rfl, hc⟩ := Opening.closes_concat h
  exact ⟨ds, c, rfl, hmarks c hc⟩

omit hn in
/-- Code holds percent signs only as tokens. -/
theorem not_mem_of_code {t : Token} {rest : List Char} (h : Lexeme .scanned t rest)
    (hcode : isEnclosed t = false) (hp : t.kind ≠ .punct '%') : '%' ∉ t.text := by
  intro hmem
  cases h with
  | @closed o => cases o <;> cases hcode
  | unclosed => cases hcode
  | lineComment => cases hcode
  | placeholder _ hd =>
    rcases List.mem_cons.1 hmem with hmem | hmem
    · exact absurd hmem (by decide)
    · exact absurd (hd _ hmem) (by decide)
  | number hnum => exact absurd (hnum.continues _ hmem) (by decide)
  | word hw hd =>
    rcases List.mem_cons.1 hmem with hmem | hmem
    · rw [← hmem] at hw
      exact absurd hw (by decide)
    · exact absurd (hd _ hmem) (by decide)
  | punct => exact hp (by rw [List.mem_singleton.1 hmem])

/-- A reference that begins in a token ends there, unless it is spelled out from its percent sign on. -/
theorem clean_of_lexeme {t : Token} {rest view : List Char} (h : Lexeme .scanned t rest)
    (hclosed : ∀ what, t.kind ≠ .unclosed what)
    (hsame : rest.head? ≠ some '$' → view.head? = rest.head?)
    (hspell : t.kind = .punct '%' → ∀ f ∈ fs, ¬f.1.reference.toList <+: '%' :: view) :
    Clean fs t.text view := by
  -- Code holds a percent sign only as a token by itself; quoted text may hold one anywhere but at its end.
  cases hcode : isEnclosed t with
  | false =>
    by_cases hp : t.kind = .punct '%'
    · rw [h.text_of_punct hp]
      rintro ds es he hne f hf href
      rcases List.append_eq_singleton_iff.1 he.symm with ⟨-, rfl⟩ | ⟨-, rfl⟩
      · exact absurd href (hspell hp f hf)
      · exact absurd rfl hne
    · exact Clean.of_not_mem hn (not_mem_of_code h hcode hp)
  | true =>
    cases h with
    | @closed o body _ ho hc =>
      obtain ⟨ds, c, rfl, hlast⟩ := closes_getLast hc
      rw [← List.append_assoc]
      exact Clean.of_getLast hn hlast
    | unclosed => exact absurd rfl (hclosed _)
    | @lineComment cs _ hb hr =>
      have hline : ∀ c ∈ rest.head?, c = '\n' := fun c hc => by simpa [Rules.scanned] using hr c hc
      refine Clean.of_head hn fun c hc => ?_
      rw [hsame fun hd => absurd (hline _ hd) (by decide)] at hc
      rw [hline c hc]
      rfl
    | _ => cases hcode

/-! ## The tokens in the place of a token -/

omit hn in
theorem slot?_fst (t : Token) : slot? (fs.map Prod.fst) t = (slot? fs t).map Prod.fst :=
  slot?_map _ _ _

/-- The text of the tokens that a token of the statement becomes. -/
def filledText (fs : Assignment) (t : Token) : List Char :=
  (filledTokens fs t).flatMap Token.text

omit hn in
theorem filledText_of_none {t : Token} (h : slot? fs t = none) : filledText fs t = t.text := by
  simp [filledText, filledTokens, h]

omit hn in
theorem sign_append_dropMinus (value : List Char) :
    (signTokens value).flatMap Token.text ++ ParameterKind.dropMinus value = value := by
  unfold signTokens ParameterKind.dropMinus
  split <;> simp

omit hn in
/-- A value stands between the same characters as the reference in its place. -/
theorem exists_frame (p : ViewParameter) : ∃ before after : List Char, '%' ∉ before ∧ '%' ∉ after ∧
    referenceText p = before ++ (p.reference.toList ++ after) ∧
    ∀ value, (valueTokens p.kind value).flatMap Token.text = before ++ (value ++ after) := by
  have hnum : ∀ value, ([⟨.punct '(', ['(']⟩] ++ signTokens value ++
      [⟨.number, ParameterKind.dropMinus value⟩, ⟨.punct ')', [')']⟩] : List Token).flatMap Token.text =
        ['('] ++ (value ++ [')']) := by
    intro value
    conv => rhs; rw [← sign_append_dropMinus value]
    simp
  unfold referenceText
  cases hk : p.kind with
  | text => exact ⟨['\''], ['\''], by decide, by decide, rfl, fun value => by simp [valueTokens]⟩
  | integer => exact ⟨['('], [')'], by decide, by decide, rfl, hnum⟩
  | float => exact ⟨['('], [')'], by decide, by decide, rfl, hnum⟩
  | boolean => exact ⟨[], [], by simp, by simp, by simp, fun value => by simp [valueTokens]⟩

theorem substitute_plain {cs : List Char} (h : '%' ∉ cs) (rest : List Char) :
    substitute fs 0 (cs ++ rest) = cs ++ substitute fs 0 rest := by
  rw [substitute_append hn (Clean.of_not_mem hn h),
    substitute_of_unreferenced hn (Unreferenced.of_not_mem hn h)]

theorem substitute_slot {t : Token} {f : ViewParameter × List Char} (h : slot? fs t = some f)
    (rest : List Char) : substitute fs 0 (viewText (fs.map Prod.fst) t ++ rest) =
      filledText fs t ++ substitute fs 0 rest := by
  obtain ⟨n, -, hf⟩ := kind_of_slot? h
  obtain ⟨before, after, hb, ha, href, hval⟩ := exists_frame f.1
  have hview : viewText (fs.map Prod.fst) t = referenceText f.1 := by
    simp [viewText, slot?_fst, h]
  rw [hview, href, filledText, filledTokens, h, hval]
  simp only [List.append_assoc]
  rw [substitute_plain hn hb, substitute_reference hn (List.mem_of_getElem? hf),
    substitute_plain hn ha]

omit hn in
theorem isSpace_ne_percent {blanks : List Char} (h : ∀ c ∈ blanks, isSpace c = true) :
    '%' ∉ blanks := fun hmem => absurd (h _ hmem) (by decide)

/-- What the view can hold in the place of a token: no reference, unless it is the one of a
placeholder. -/
structure Bound (ps : List ViewParameter) (t : Token) : Prop where
  closed : ∀ what, t.kind ≠ .unclosed what
  slot : ∀ n, t.kind = .placeholder n → (slot? ps t).isSome
  literal : t.kind = .stringLiteral ∨ t.kind = .quotedIdentifier →
    ∀ p ∈ ps, hasInfix p.reference.toList t.text = false

omit hn in
theorem hasInfix_iff {part cs : List Char} :
    hasInfix part cs = true ↔ ∃ ds es, cs = ds ++ es ∧ part <+: es := by
  induction cs with
  | nil =>
    rw [hasInfix, List.isEmpty_iff]
    constructor
    · rintro rfl
      exact ⟨[], [], rfl, List.nil_prefix⟩
    · rintro ⟨ds, es, he, hp⟩
      rw [(List.append_eq_nil_iff.1 he.symm).2] at hp
      exact List.prefix_nil.1 hp
  | cons c cs ih =>
    rw [hasInfix, Bool.or_eq_true, List.isPrefixOf_iff_prefix, ih]
    constructor
    · rintro (hp | ⟨ds, es, rfl, hp⟩)
      · exact ⟨[], _, rfl, hp⟩
      · exact ⟨c :: ds, es, rfl, hp⟩
    · rintro ⟨ds, es, he, hp⟩
      cases ds with
      | nil => exact .inl (he ▸ hp)
      | cons d ds => exact .inr ⟨ds, es, (List.cons.inj he).2, hp⟩

omit hn in
theorem unreferenced_iff {cs : List Char} :
    Unreferenced fs cs ↔ ∀ p ∈ fs.map Prod.fst, hasInfix p.reference.toList cs = false := by
  simp only [List.mem_map, forall_exists_index, and_imp, forall_apply_eq_imp_iff₂]
  constructor
  · intro h f hf
    rw [Bool.eq_false_iff, Ne, hasInfix_iff]
    rintro ⟨ds, es, he, hp⟩
    exact h ds es he f hf hp
  · intro h ds es he f hf hp
    have hno := h f hf
    rw [Bool.eq_false_iff, Ne, hasInfix_iff] at hno
    exact hno ⟨ds, es, he, hp⟩

theorem unreferenced_of_lexeme {t : Token} {rest : List Char} (h : Lexeme .scanned t rest)
    (hb : Bound (fs.map Prod.fst) t) (hcomment : t.isComment = true → Unreferenced fs t.text) :
    Unreferenced fs t.text := by
  cases hcode : isEnclosed t with
  | false =>
    by_cases hp : t.kind = .punct '%'
    · rw [h.text_of_punct hp]
      intro ds es he f hf href
      have hlen := congrArg List.length he
      have := hn.length_reference hf
      have := href.length_le
      simp only [List.length_append, List.length_singleton] at hlen
      omega
    · exact Unreferenced.of_not_mem hn (not_mem_of_code h hcode hp)
  | true =>
    cases hk : t.kind with
    | stringLiteral => exact unreferenced_iff.2 (hb.literal (.inl hk))
    | quotedIdentifier => exact unreferenced_iff.2 (hb.literal (.inr hk))
    | lineComment => exact hcomment (by simp [isComment, hk])
    | blockComment => exact hcomment (by simp [isComment, hk])
    | unclosed what => exact absurd hk (hb.closed what)
    | _ => simp [isEnclosed, hk] at hcode

/-- A token without references stays, and so does the text behind it. -/
theorem substitute_kept {t : Token} {behind : List Piece} {trailing : List Char}
    (hl : Lexeme .scanned t (Scan.text ⟨behind, trailing⟩)) (hs : Readable ⟨behind, trailing⟩)
    (hb : Bound (fs.map Prod.fst) t) (hspell : ¬Spells (fs.map Prod.fst) t behind) :
    substitute fs 0 (t.text ++ render (viewText (fs.map Prod.fst)) ⟨behind, trailing⟩) =
      substitute fs 0 t.text ++
        substitute fs 0 (render (viewText (fs.map Prod.fst)) ⟨behind, trailing⟩) := by
  refine substitute_append hn (clean_of_lexeme hn hl hb.closed (fun hd => ?_) fun hk f hf hp => ?_)
  · exact head?_render (rewrites_viewText _ hs) hs hd
  · obtain ⟨i, -, href⟩ := hn.exists_of_mem hf
    rw [href] at hp
    obtain ⟨w, q, more, rfl, hw, hword, hq, htoken, hspelled⟩ := spells_of_reference _ hs hp
    refine hspell ⟨hk, w, q, more, rfl, hw, hword, hq, by rw [htoken], f.1, ?_, ?_⟩
    · exact List.mem_map_of_mem hf
    · rw [href, hspelled]

/-- Where no reference stands outside of the placeholders, the pass replaces those of the placeholders
and nothing else. -/
theorem substitute_view {s : Scan} (hs : Readable s)
    (hb : ∀ p ∈ s.pieces, Bound (fs.map Prod.fst) p.token)
    (hu : Unspelled (fs.map Prod.fst) s.pieces) :
    substitute fs 0 (render (viewText (fs.map Prod.fst)) s) = render (filledText fs) s := by
  obtain ⟨ps, trailing⟩ := s
  induction ps with
  | nil =>
    have hplain := isSpace_ne_percent (readable_nil.1 hs)
    exact substitute_of_unreferenced hn (Unreferenced.of_not_mem hn hplain)
  | cons p ps ih =>
    obtain ⟨hblank, hl, hrest⟩ := readable_cons.1 hs
    obtain ⟨⟨hcomment, hspell⟩, hu⟩ := hu
    simp only [List.mem_cons, forall_eq_or_imp] at hb
    have htail := ih hrest hb.2 hu
    rw [render_cons, render_cons, substitute_plain hn (isSpace_ne_percent hblank)]
    cases hslot : slot? fs p.token with
    | some f => rw [substitute_slot hn hslot, htail]
    | none =>
      have hview : viewText (fs.map Prod.fst) p.token = p.token.text := by
        simp [viewText, slot?_fst, hslot]
      have hclear := unreferenced_of_lexeme hn hl hb.1 fun hc => unreferenced_iff.2 (hcomment hc)
      rw [hview, substitute_kept hn hl hrest hb.1 hspell, substitute_of_unreferenced hn hclear, htail,
        filledText_of_none hslot]

omit hn in
theorem slot?_eq_none_of_kind {α : Type} {xs : List α} {t : Token} (h : ∀ n, t.kind ≠ .placeholder n) :
    slot? xs t = none := by
  unfold slot?
  split
  · rename_i hk
    exact absurd hk (h _)
  · rfl

/-- A reference that is spelled out is replaced. -/
theorem substitute_spelled {p : Piece} {behind : List Piece} {trailing : List Char}
    (hblank : ∀ c ∈ p.blanks, isSpace c = true)
    (hs : Readable ⟨p :: behind, trailing⟩) (h : Spells (fs.map Prod.fst) p.token behind) :
    ∃ w q more, behind = w :: q :: more ∧ ∃ f ∈ fs,
      substitute fs 0 (render (viewText (fs.map Prod.fst)) ⟨p :: behind, trailing⟩) =
        p.blanks ++ (f.2 ++ substitute fs 0 (render (viewText (fs.map Prod.fst)) ⟨more, trailing⟩)) ∧
      2 + (render (filledText fs) ⟨more, trailing⟩).count '%' ≤
        (render (filledText fs) ⟨p :: behind, trailing⟩).count '%' := by
  -- the reference is spelled by three tokens: a percent sign, a word and a percent sign
  obtain ⟨hp, w, q, more, rfl, hw, hword, hq, hpercent, param, hmem, href⟩ := h
  obtain ⟨f, hf, rfl⟩ := List.mem_map.1 hmem
  obtain ⟨-, hpl, hs⟩ := readable_cons.1 hs
  obtain ⟨-, -, hs⟩ := readable_cons.1 hs
  obtain ⟨-, hql, -⟩ := readable_cons.1 hs
  have hslots : slot? fs p.token = none ∧ slot? fs w.token = none ∧ slot? fs q.token = none :=
    ⟨slot?_eq_none_of_kind (by simp [hp]), slot?_eq_none_of_kind (by simp [hword]),
      slot?_eq_none_of_kind (by simp [hpercent])⟩
  have hview : ∀ t, slot? fs t = none → viewText (fs.map Prod.fst) t = t.text := by
    intro t ht
    simp [viewText, slot?_fst, ht]
  refine ⟨w, q, more, rfl, f, hf, ?_, ?_⟩
  · have htext : render (viewText (fs.map Prod.fst)) ⟨p :: w :: q :: more, trailing⟩ =
        p.blanks ++ (f.1.reference.toList ++
          render (viewText (fs.map Prod.fst)) ⟨more, trailing⟩) := by
      simp only [render_cons, hview _ hslots.1, hview _ hslots.2.1, hview _ hslots.2.2, hw, hq, href,
        hpl.text_of_punct hp, hql.text_of_punct hpercent]
      simp
    rw [htext, substitute_plain hn (isSpace_ne_percent hblank), substitute_reference hn hf]
  · simp only [render_cons, filledText_of_none hslots.1, filledText_of_none hslots.2.2,
      hpl.text_of_punct hp, hql.text_of_punct hpercent, List.count_append, List.count_singleton]
    simp
    omega

/-- Values without percent signs leave no more of them than the tokens in the places of the placeholders
have, and fewer when a reference stands elsewhere. -/
theorem count_substitute_view (hv : ∀ f ∈ fs, '%' ∉ f.2) {s : Scan} (hs : Readable s)
    (hb : ∀ p ∈ s.pieces, Bound (fs.map Prod.fst) p.token) :
    (substitute fs 0 (render (viewText (fs.map Prod.fst)) s)).count '%' ≤
        (render (filledText fs) s).count '%' ∧
      (¬Unspelled (fs.map Prod.fst) s.pieces →
        (substitute fs 0 (render (viewText (fs.map Prod.fst)) s)).count '%' <
          (render (filledText fs) s).count '%') := by
  obtain ⟨ps, trailing⟩ := s
  induction hlen : ps.length using Nat.strongRecOn generalizing ps with
  | ind n ih =>
    cases ps with
    | nil => exact ⟨count_substitute_le hn hv _, fun h => absurd trivial h⟩
    | cons p ps =>
      obtain ⟨hblank, hl, hrest⟩ := readable_cons.1 hs
      rw [List.length_cons] at hlen
      -- a reference may begin in one token and end in the next, so the induction skips both
      by_cases hspell : Spells (fs.map Prod.fst) p.token ps
      · obtain ⟨w, q, more, rfl, f, hf, hsub, hcount⟩ := substitute_spelled hn hblank hs hspell
        simp only [List.mem_cons, forall_eq_or_imp, List.length_cons] at hb hlen
        have hmore := (readable_cons.1 (readable_cons.1 hrest).2.2).2.2
        obtain ⟨hle, -⟩ := ih more.length (by omega) more hmore hb.2.2.2 rfl
        rw [hsub, List.count_append, List.count_append, List.count_eq_zero.2 (hv f hf),
          List.count_eq_zero.2 (isSpace_ne_percent hblank)]
        omega
      simp only [List.mem_cons, forall_eq_or_imp] at hb
      obtain ⟨hle, hlt⟩ := ih ps.length (by omega) ps hrest hb.2 rfl
      rw [render_cons, render_cons, substitute_plain hn (isSpace_ne_percent hblank),
        List.count_append, List.count_append]
      cases hslot : slot? fs p.token with
      | some f =>
        obtain ⟨k, hk, -⟩ := kind_of_slot? hslot
        rw [substitute_slot hn hslot, List.count_append, List.count_append]
        refine ⟨by omega, fun h => ?_⟩
        have := hlt fun hu => h ⟨⟨by simp [isComment, hk], hspell⟩, hu⟩
        omega
      | none =>
        have hview : viewText (fs.map Prod.fst) p.token = p.token.text := by
          simp [viewText, slot?_fst, hslot]
        rw [hview, substitute_kept hn hl hrest hb.1 hspell, filledText_of_none hslot,
          List.count_append, List.count_append]
        have htoken := count_substitute_le hn hv p.token.text
        refine ⟨by omega, fun h => ?_⟩
        by_cases hcomment : p.token.isComment = true → Unreferenced fs p.token.text
        · have := hlt fun hu => h ⟨⟨fun hc => unreferenced_iff.1 (hcomment hc), hspell⟩, hu⟩
          omega
        · have := count_substitute_lt hn hv (Classical.not_imp.1 hcomment).2
          omega

end SpatialQuery.View
