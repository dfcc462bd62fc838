import SpatialQuery.Proofs.Lexical.Rescan

/-!
Texts with something around them. In front of a text, blanks, comments that are closed and semicolons are tokens of
their own, and a blank is part of the first piece behind it (`ofChars_blank`). Behind a text, blanks and a semicolon
become part of its last token if that one goes on to the end, and are scanned by themselves otherwise
(`ofChars_ending`).
-/

namespace SpatialQuery.Lexical

open Token

def semicolon : Token :=
  ⟨.punct ';', [';']⟩

theorem lexeme_semicolon (rest : List Char) : Lexeme .scanned semicolon rest := by
  refine .punct rfl rfl (no_numeral_begins rfl) (fun h => absurd h (by decide)) ?_
  rw [begins_cons_iff]
  simp

/-! ## In front of a text -/

/-- Blanks, comments that are closed, and semicolons. -/
inductive Noise : List Char → Prop
  | nil : Noise []
  | blank {c : Char} {cs : List Char} : isSpace c = true → Noise cs → Noise (c :: cs)
  | semicolon {cs : List Char} : Noise cs → Noise (';' :: cs)
  /-- A line comment ends with its newline. -/
  | lineComment {body cs : List Char} : '\n' ∉ body → Noise cs → Noise ('-' :: '-' :: body ++ '\n' :: cs)
  | blockComment {body cs : List Char} : CommentRest 0 body → Noise cs → Noise ('/' :: '*' :: body ++ cs)

theorem lexeme_comment {body : List Char} (h : '\n' ∉ body) (rest : List Char) :
    Lexeme .scanned ⟨.lineComment, '-' :: '-' :: body⟩ ('\n' :: rest) := by
  refine .lineComment (fun c hc => ?_) (by simp [Rules.scanned])
  exact beq_eq_false_iff_ne.2 fun he => h (he ▸ hc)

/-- A blank in front of a text belongs to its first piece. -/
theorem ofChars_blank {c : Char} (hc : isSpace c = true) (cs : List Char) :
    ((Scan.ofChars cs).pieces = [] ∧ (Scan.ofChars (c :: cs)).pieces = []) ∨
      ∃ p ps, (Scan.ofChars cs).pieces = p :: ps ∧ (Scan.ofChars (c :: cs)).pieces = ⟨c :: p.blanks, p.token⟩ :: ps := by
  have hs := readable_ofChars cs
  have htext := Scan.text_ofChars cs
  generalize Scan.ofChars cs = s at hs htext
  subst htext
  obtain ⟨ps, trailing⟩ := s
  cases ps with
  | nil =>
    refine .inl ⟨rfl, ?_⟩
    rw [text_nil, ofChars_blanks (List.forall_mem_cons.2 ⟨hc, readable_nil.1 hs⟩)]
  | cons p ps =>
    obtain ⟨hb, hl, hrest⟩ := readable_cons.1 hs
    refine .inr ⟨p, ps, rfl, ?_⟩
    rw [text_cons, ← List.cons_append, ofChars_append (List.forall_mem_cons.2 ⟨hc, hb⟩) hl, ofChars_text hrest]

/-! ## Behind a text -/

/-- Blanks and at most one semicolon. -/
def IsEnding (cs : List Char) : Prop :=
  (∀ c ∈ cs, isSpace c = true ∨ c = ';') ∧ cs.count ';' ≤ 1

theorem IsEnding.of_suffix {cs ds : List Char} (h : IsEnding cs) (hs : ds <:+ cs) : IsEnding ds :=
  ⟨fun c hc => h.1 c (hs.mem hc), (hs.sublist.count_le ';').trans h.2⟩

theorem IsEnding.append {blanks cs : List Char} (hb : ∀ c ∈ blanks, isSpace c = true) (h : IsEnding cs) :
    IsEnding (blanks ++ cs) := by
  have hnone : blanks.count ';' = 0 := List.count_eq_zero.2 fun hmem => absurd (hb ';' hmem) (by decide)
  refine ⟨fun c hc => ?_, by rw [List.count_append, hnone, Nat.zero_add]; exact h.2⟩
  rcases List.mem_append.1 hc with hc | hc
  · exact .inl (hb c hc)
  · exact h.1 c hc

/-- The scan of an ending: its semicolon, if there is one. -/
theorem IsEnding.pieces {cs : List Char} (h : IsEnding cs) :
    (Scan.ofChars cs).pieces = [] ∨ ∃ blanks, (Scan.ofChars cs).pieces = [⟨blanks, semicolon⟩] := by
  obtain ⟨hchars, hcount⟩ := h
  have hblank : ∀ c ∈ cs, c ≠ ';' → isSpace c = true := fun c hc hne => (hchars c hc).resolve_right hne
  by_cases hmem : ';' ∈ cs
  · obtain ⟨before, behind, rfl, hbefore⟩ := List.eq_append_cons_of_mem hmem
    have hbehind : ';' ∉ behind := by
      rw [List.count_append, List.count_cons_self] at hcount
      exact List.count_eq_zero.1 (by omega)
    have hb : ∀ c ∈ before, isSpace c = true := fun c hc => hblank c (by simp [hc]) fun he => hbefore (he ▸ hc)
    have hd : ∀ c ∈ behind, isSpace c = true := fun c hc => hblank c (by simp [hc]) fun he => hbehind (he ▸ hc)
    have hscan := ofChars_append hb (lexeme_semicolon behind)
    rw [ofChars_blanks hd] at hscan
    exact .inr ⟨before, congrArg Scan.pieces hscan⟩
  · refine .inl ?_
    rw [ofChars_blanks fun c hc => hblank c hc fun he => hmem (he ▸ hc)]

theorem endsBefore_ending {t : Token} (hclosed : ∀ what, t.kind ≠ .unclosed what) (hcomment : t.kind ≠ .lineComment)
    {c : Char} (hc : isSpace c = true ∨ c = ';') : EndsBefore t c := by
  rcases hc with hc | rfl
  · exact endsBefore_separator hclosed hcomment (by rw [isSeparator, hc, Bool.true_or])
  · unfold EndsBefore
    split
    · exact ⟨by decide, fun h => absurd h (by decide)⟩
    · decide
    · exact fun _ => by decide
    · decide
    · decide
    · rename_i hk
      exact absurd hk hcomment
    · trivial
    · exact ⟨fun _ => by decide, fun _ => by decide, fun _ => by decide, fun _ => by decide⟩
    · rename_i hk
      exact hclosed _ hk

theorem separated_ending {cs ds ending : List Char} (he : IsEnding ending) : Separated cs ds ending := by
  cases ending with
  | nil => simp [Separated]
  | cons c ending =>
    rcases he.1 c List.mem_cons_self with hc | rfl
    · exact separated_separator (by simp [isSeparator, hc])
    · intro d hd
      obtain rfl := Option.some.inj hd
      exact ⟨fun h => absurd h (by decide), fun h => absurd h (by decide)⟩

/-! ## Open tokens -/

/-- The token goes on to the end of its line, or to the end of the text. -/
def IsOpenEnded (t : Token) : Prop :=
  t.kind = .lineComment ∨ ∃ what, t.kind = .unclosed what

theorem unclosed_append {o : Opening} {cs ending : List Char}
    (h : ∀ body rest, o.Closes body rest → body ++ rest ≠ cs) (he : IsEnding ending) :
    ∀ body rest, o.Closes body rest → body ++ rest ≠ cs ++ ending := by
  intro body rest hcloses heq
  have hmarks : ∀ c ∈ closingMarks, ¬(isSpace c = true ∨ c = ';') := by simp [closingMarks, isSpace]
  obtain ⟨ds, c, hlast, hc⟩ := Opening.closes_concat hcloses
  -- the mark is no character of the ending, so the construct was closed without it
  obtain ⟨as, rfl⟩ : body <+: cs := by
    rcases List.append_eq_append_iff.1 heq with ⟨as, hcs, -⟩ | ⟨bs, hbody, hending⟩
    · exact ⟨as, hcs.symm⟩
    · rcases List.eq_nil_or_concat bs with rfl | ⟨bs, d, rfl⟩
      · exact ⟨[], by simpa using hbody⟩
      · rw [hlast, List.concat_eq_append, ← List.append_assoc] at hbody
        obtain rfl := List.singleton_inj.1 (List.append_inj' hbody rfl).2
        exact absurd (he.1 c (by simp [hending])) (hmarks c hc)
  rw [List.append_assoc, List.append_cancel_left_eq] at heq
  subst heq
  have hclosed : o.Closes body (as ++ []) := Opening.closes_of_common hcloses (by simp)
  rw [List.append_nil] at hclosed
  exact h body as hclosed rfl

theorem Lexeme.rest_of_unclosed {R : Rules} {t : Token} {rest : List Char} {what : Construct} (h : Lexeme R t rest)
    (hk : t.kind = .unclosed what) : rest = [] := by
  cases h with
  | @closed o => cases o <;> cases hk
  | unclosed => rfl
  | _ => cases hk

/-- An open token at the end of a text takes what follows up to the end of the line. -/
theorem Lexeme.extend {t : Token} {ending : List Char} (h : Lexeme .scanned t []) (ho : IsOpenEnded t)
    (he : IsEnding ending) : ∃ u rest, u.kind = t.kind ∧ u.text ++ rest = t.text ++ ending ∧
      Lexeme .scanned u rest ∧ IsEnding rest := by
  rcases ho with ho | ⟨what, ho⟩
  · generalize hr : ([] : List Char) = rest at h
    cases h with
    | @closed o => cases o <;> cases ho
    | @lineComment cs _ hb =>
      refine ⟨⟨.lineComment, '-' :: '-' :: (cs ++ ending.takeWhile (!Rules.scanned.endsLine ·))⟩,
        ending.dropWhile (!Rules.scanned.endsLine ·), rfl, by simp [List.takeWhile_append_dropWhile],
        .lineComment (fun c hc => ?_) (fun c hc => ?_), he.of_suffix (List.dropWhile_suffix _)⟩
      · rcases List.mem_append.1 hc with hc | hc
        · exact hb c hc
        · simpa using List.mem_takeWhile_imp hc
      · simpa using head?_dropWhile hc
    | _ => cases ho
  · generalize hr : ([] : List Char) = rest at h
    cases h with
    | @closed o => cases o <;> cases ho
    | @unclosed o cs ha hc =>
      exact ⟨⟨.unclosed o.construct, o.text ++ (cs ++ ending)⟩, [], rfl, by simp,
        .unclosed ha (unclosed_append hc he), by simp, by simp⟩
    | _ => cases ho

/-- The same pieces, but the last one may be longer if it is open. -/
def Swallows (ps qs : List Piece) : Prop :=
  ps = qs ∨ ∃ init p t, ps = init ++ [p] ∧ qs = init ++ [⟨p.blanks, t⟩] ∧ IsOpenEnded p.token ∧ t.kind = p.token.kind

theorem Swallows.cons {ps qs : List Piece} (h : Swallows ps qs) (p : Piece) : Swallows (p :: ps) (p :: qs) := by
  rcases h with rfl | ⟨init, q, t, rfl, rfl, hopen, hkind⟩
  · exact .inl rfl
  · exact .inr ⟨p :: init, q, t, rfl, rfl, hopen, hkind⟩

theorem eq_nil_of_text {ps : List Piece} {trailing : List Char} (h : Readable ⟨ps, trailing⟩)
    (ht : Scan.text ⟨ps, trailing⟩ = []) : ps = [] := by
  cases ps with
  | nil => rfl
  | cons p ps =>
    obtain ⟨c, cs, htext, -⟩ := (readable_cons.1 h).2.1.exists_cons
    simp [htext] at ht

theorem ofChars_ending {ps : List Piece} {trailing ending : List Char} (h : Readable ⟨ps, trailing⟩)
    (he : IsEnding ending) : ∃ qs more, (Scan.ofChars (Scan.text ⟨ps, trailing⟩ ++ ending)).pieces = qs ++ more ∧
      Swallows ps qs ∧ (more = [] ∨ ∃ blanks, more = [⟨blanks, semicolon⟩]) := by
  induction ps with
  | nil =>
    have hend := (he.append (readable_nil.1 h)).pieces
    exact ⟨[], _, rfl, .inl rfl, by simpa using hend⟩
  | cons p ps ih =>
    obtain ⟨hb, hl, hrest⟩ := readable_cons.1 h
    rw [text_cons, List.append_assoc, List.append_assoc]
    -- Only the last token can go on into the ending; any other ends where it did.
    by_cases hopen : IsOpenEnded p.token ∧ Scan.text ⟨ps, trailing⟩ = []
    · obtain ⟨hopen, hnil⟩ := hopen
      obtain rfl := eq_nil_of_text hrest hnil
      rw [hnil] at hl ⊢
      obtain ⟨t, rest, hkind, htext, hlexeme, hending⟩ := hl.extend hopen he
      rw [List.nil_append, ← htext, ofChars_append hb hlexeme]
      exact ⟨[⟨p.blanks, t⟩], _, rfl, .inr ⟨[], p, t, rfl, rfl, hopen, hkind⟩, hending.pieces⟩
    · obtain ⟨qs, more, hpieces, hswallows, hmore⟩ := ih hrest
      have hlexeme : Lexeme .scanned p.token (Scan.text ⟨ps, trailing⟩ ++ ending) := by
        have hclosed : ∀ what, p.token.kind ≠ .unclosed what := fun what hk =>
          hopen ⟨.inr ⟨what, hk⟩, hl.rest_of_unclosed hk⟩
        rw [← List.append_nil (Scan.text _)] at hl
        refine hl.of_common hclosed (fun hnil c hc => ?_) fun _ _ => separated_ending he
        exact endsBefore_ending hclosed (fun hk => hopen ⟨.inl hk, hnil⟩) (he.1 c (List.mem_of_mem_head? hc))
      rw [ofChars_append hb hlexeme, hpieces]
      exact ⟨p :: qs, more, rfl, hswallows.cons p, hmore⟩

end SpatialQuery.Lexical
