import Mathlib.Data.List.TakeWhile
import SpatialQuery.Proofs.Lexical.Closing
import SpatialQuery.Proofs.Lexical.Numeral

/-!
Reading one token. `Rules.read` reads by any rules what `Token.read` reads by those of the scan; it is
the only reading that the rules allow (`lexeme_iff_read`).
-/

namespace SpatialQuery.Lexical

open Token

theorem takeWhile_exact {p : Char → Bool} {cs rest : List Char} (h : ∀ c ∈ cs, p c = true)
    (hr : ∀ c ∈ rest.head?, p c = false) : (cs ++ rest).takeWhile p = cs := by
  rw [List.takeWhile_append_of_pos h]
  cases rest with
  | nil => simp
  | cons r rs => simp [hr r (by simp)]

theorem dropWhile_exact {p : Char → Bool} {cs rest : List Char} (h : ∀ c ∈ cs, p c = true)
    (hr : ∀ c ∈ rest.head?, p c = false) : (cs ++ rest).dropWhile p = rest := by
  rw [List.dropWhile_append_of_pos h]
  cases rest with
  | nil => simp
  | cons r rs => simp [hr r (by simp)]

theorem head?_dropWhile {p : Char → Bool} {cs : List Char} {c : Char}
    (h : c ∈ (cs.dropWhile p).head?) : p c = false := by
  have := List.head?_dropWhile_not p cs
  rw [Option.mem_def] at h
  simpa [h] using this

/-! ## Where constructs begin -/

theorem Rules.isTagPart_dollar (R : Rules) : R.isTagPart '$' = false := by
  rw [Rules.isTagPart, R.isTagLetter_dollar]
  rfl

/-- The tag between two dollar signs is all that tags may hold. -/
theorem Rules.takeWhile_isTagPart (R : Rules) {tag : List Char} (h : R.IsTag tag) (rest : List Char) :
    (tag ++ '$' :: rest).takeWhile R.isTagPart = tag ∧
      (tag ++ '$' :: rest).dropWhile R.isTagPart = '$' :: rest := by
  have hr : ∀ c ∈ ('$' :: rest).head?, R.isTagPart c = false := by
    simpa using R.isTagPart_dollar
  exact ⟨takeWhile_exact h.2 hr, dropWhile_exact h.2 hr⟩

theorem Rules.isTag_takeWhile (R : Rules) {cs : List Char}
    (h : (cs.takeWhile Char.isDigit).isEmpty = true) : R.IsTag (cs.takeWhile R.isTagPart) := by
  refine ⟨?_, fun c hc => List.mem_takeWhile_imp hc⟩
  intro c hc
  cases cs with
  | nil => simp at hc
  | cons d ds =>
    rw [List.takeWhile_cons] at h hc
    split at hc
    · rename_i hp
      simp only [List.head?_cons, Option.mem_def, Option.some.injEq] at hc
      subst hc
      rw [Rules.isTagPart, Bool.or_eq_true] at hp
      exact hp.resolve_right fun hd => by simp [hd] at h
    · simp at hc

theorem begins_cons_iff {R : Rules} {c : Char} {cs : List Char} :
    Begins R (c :: cs) ↔ c = '-' ∧ cs.head? = some '-' ∨ c = '/' ∧ cs.head? = some '*' ∨
      c = '\'' ∨ c = '"' ∨ (c = 'E' ∨ c = 'e') ∧ cs.head? = some '\'' ∨
      c = '$' ∧ ∃ tag, R.IsTag tag ∧ tag ++ ['$'] <+: cs := by
  have hpair : ∀ a b, [a, b] <+: c :: cs ↔ c = a ∧ cs.head? = some b := by
    intro a b
    cases cs <;> simp [List.cons_prefix_cons, eq_comm]
  constructor
  · rintro (h | ⟨o, ho, h⟩)
    · exact .inl ((hpair _ _).1 h)
    · cases o with
      | string => exact .inr (.inr (.inl (List.cons_prefix_cons.1 h).1.symm))
      | escapeString e =>
        obtain ⟨rfl, hq⟩ := (hpair _ _).1 h
        exact .inr (.inr (.inr (.inr (.inl ⟨ho, hq⟩))))
      | identifier => exact .inr (.inr (.inr (.inl (List.cons_prefix_cons.1 h).1.symm)))
      | comment => exact .inr (.inl ((hpair _ _).1 h))
      | tagged tag =>
        obtain ⟨hd, ht⟩ := List.cons_prefix_cons.1 h
        exact .inr (.inr (.inr (.inr (.inr ⟨hd.symm, tag, ho, ht⟩))))
  · rintro (h | h | rfl | rfl | ⟨he, hq⟩ | ⟨rfl, tag, ht, h⟩)
    · exact .inl ((hpair _ _).2 h)
    · exact .inr ⟨.comment, trivial, (hpair _ _).2 h⟩
    · exact .inr ⟨.string, trivial, by simp [Opening.text, List.cons_prefix_cons]⟩
    · exact .inr ⟨.identifier, trivial, by simp [Opening.text, List.cons_prefix_cons]⟩
    · exact .inr ⟨.escapeString c, he, (hpair _ _).2 ⟨rfl, hq⟩⟩
    · exact .inr ⟨.tagged tag, ht, List.cons_prefix_cons.2 ⟨rfl, h⟩⟩

theorem begins_dollar_iff {R : Rules} {cs : List Char} :
    Begins R ('$' :: cs) ↔ ∃ tag, R.IsTag tag ∧ tag ++ ['$'] <+: cs := by
  rw [begins_cons_iff]
  simp

theorem isWordStart_ne {c d : Char} (h : isWordStart c = true) (hd : isWordStart d = false) :
    c ≠ d := by
  rintro rfl
  simp [h] at hd

/-- No comment, quoted name or text opens with a letter, except for a text behind `E`. -/
theorem isWordStart_opening {c : Char} (h : isWordStart c = true) :
    c ≠ '-' ∧ c ≠ '/' ∧ c ≠ '\'' ∧ c ≠ '"' ∧ c ≠ '$' :=
  ⟨isWordStart_ne h rfl, isWordStart_ne h rfl, isWordStart_ne h rfl, isWordStart_ne h rfl, isWordStart_ne h rfl⟩

/-- What begins at the first letter of a word is at most a text behind `E`. -/
theorem begins_word_iff {R : Rules} {c : Char} {cs : List Char} (h : isWordStart c = true) :
    Begins R (c :: cs) ↔ (c = 'E' ∨ c = 'e') ∧ cs.head? = some '\'' := by
  obtain ⟨h1, h2, h3, h4, h5⟩ := isWordStart_opening h
  rw [begins_cons_iff]
  simp [h1, h2, h3, h4, h5]

theorem isDigit_ne {c d : Char} (h : c.isDigit = true) (hd : d.isDigit = false) : c ≠ d := by
  rintro rfl
  simp [h] at hd

/-! ## Reading by rules -/

def Rules.readDollar (R : Rules) (cs : List Char) : Token × List Char :=
  if (cs.takeWhile Char.isDigit).isEmpty then
    match cs.dropWhile R.isTagPart with
    | '$' :: rest => (Opening.tagged (cs.takeWhile R.isTagPart)).read rest
    | _ => (⟨.punct '$', ['$']⟩, cs)
  else
    (⟨.placeholder (placeholderIndex (cs.takeWhile Char.isDigit)), '$' :: cs.takeWhile Char.isDigit⟩,
      cs.dropWhile Char.isDigit)

/-- The token at the front of a text and the text behind it. Rules differ in line comments and behind
dollar signs only. -/
def Rules.read (R : Rules) (c : Char) (cs : List Char) : Token × List Char :=
  if c == '-' && cs.head? == some '-' then
    (⟨.lineComment, c :: cs.takeWhile (!R.endsLine ·)⟩, cs.dropWhile (!R.endsLine ·))
  else if c == '$' then R.readDollar cs
  else Token.read c cs

theorem scanned_readDollar (cs : List Char) : Rules.scanned.readDollar cs = Token.readDollar cs := by
  rw [Rules.readDollar, Token.readDollar]
  rfl

/-- The scan reads by its own rules. -/
theorem scanned_read (c : Char) (cs : List Char) : Rules.scanned.read c cs = Token.read c cs := by
  rw [Rules.read]
  split
  · rename_i h
    rw [Token.read, if_pos h]
    rfl
  rename_i h
  split
  · rename_i hd
    obtain rfl := eq_of_beq hd
    rw [scanned_readDollar, Token.read]
    rfl
  · rfl

theorem Rules.read_lineComment (R : Rules) (cs : List Char) :
    R.read '-' ('-' :: cs) = (⟨.lineComment, '-' :: '-' :: cs.takeWhile (!R.endsLine ·)⟩,
      cs.dropWhile (!R.endsLine ·)) := by
  have h := R.endsLine_minus
  simp [Rules.read, h]

theorem Rules.read_dollar (R : Rules) (cs : List Char) : R.read '$' cs = R.readDollar cs := rfl

theorem Rules.read_escapeString (R : Rules) {e : Char} (he : e = 'E' ∨ e = 'e') (cs : List Char) :
    R.read e ('\'' :: cs) = (Opening.escapeString e).read cs := by
  rcases he with rfl | rfl <;> rfl

theorem Rules.read_number (R : Rules) {c : Char} {cs : List Char} (h : startsNumeral c cs = true) :
    R.read c cs = (⟨.number, (splitNumber false false false (c :: cs)).1⟩,
      (splitNumber false false false (c :: cs)).2) := by
  have hne : ∀ d, d.isDigit = false → d ≠ '.' → c ≠ d := by
    rintro d hd hp rfl
    simp [startsNumeral, hd, hp] at h
  have h1 := hne '-' rfl (by decide)
  have h2 := hne '/' rfl (by decide)
  have h3 := hne '\'' rfl (by decide)
  have h4 := hne 'E' rfl (by decide)
  have h5 := hne 'e' rfl (by decide)
  have h6 := hne '"' rfl (by decide)
  have h7 := hne '$' rfl (by decide)
  unfold startsNumeral at h
  simp [Rules.read, Token.read, h1, h2, h3, h4, h5, h6, h7, h]

theorem startsNumeral_of_isWordStart {c : Char} (h : isWordStart c = true) (cs : List Char) :
    startsNumeral c cs = false := by
  have hp := isWordStart_ne h (d := '.') rfl
  have hd : c.isDigit = false := by
    rw [Bool.eq_false_iff]
    intro hd
    simp [isWordStart_of_isDigit hd] at h
  simp [startsNumeral, hd, hp]

theorem Rules.read_word (R : Rules) {c : Char} {cs : List Char} (h : isWordStart c = true)
    (hb : ¬Begins R (c :: cs)) :
    R.read c cs = (⟨.word, c :: cs.takeWhile isWordPart⟩, cs.dropWhile isWordPart) := by
  obtain ⟨h1, h2, h3, h4, h5⟩ := isWordStart_opening h
  have hn := startsNumeral_of_isWordStart h cs
  rw [begins_word_iff h] at hb
  unfold startsNumeral at hn
  simp [Rules.read, Token.read, h1, h2, h3, h4, h5, hn, hb, h]

theorem Rules.read_punct (R : Rules) {c : Char} {cs : List Char} (hw : isWordStart c = false)
    (hn : startsNumeral c cs = false) (hc : c ≠ '$') (hb : ¬Begins R (c :: cs)) :
    R.read c cs = (⟨.punct c, [c]⟩, cs) := by
  rw [begins_cons_iff] at hb
  simp only [not_or] at hb
  obtain ⟨h1, h2, h3, h4, h5, -⟩ := hb
  unfold startsNumeral at hn
  simp [Rules.read, Token.read, hc, h1, h2, h3, h4, h5, hn, hw]

/-! ## Reading is what the rules say -/

theorem no_numeral_begins {c : Char} {cs : List Char} (h : startsNumeral c cs = false) :
    ∀ ds, Numeral ds → ¬ds <+: c :: cs := by
  rintro ds hd ⟨rest, he⟩
  obtain ⟨d, es, rfl, hs⟩ := hd.startsNumeral rest
  rw [List.cons_append, List.cons.injEq] at he
  obtain ⟨rfl, rfl⟩ := he
  simp [h] at hs

theorem lexeme_readDollar (R : Rules) (cs : List Char) :
    Lexeme R (R.readDollar cs).1 (R.readDollar cs).2 := by
  unfold Rules.readDollar
  split
  · rename_i hd
    split
    · rename_i rest _
      exact Opening.lexeme_read (o := .tagged (cs.takeWhile R.isTagPart)) (R.isTag_takeWhile hd) rest
    · rename_i hs
      refine .punct rfl rfl (no_numeral_begins rfl) ?_ ?_
      · rintro - d hh
        rw [List.isEmpty_iff] at hd
        cases cs with
        | nil => simp at hh
        | cons e es =>
          simp only [List.head?_cons, Option.mem_def, Option.some.injEq] at hh
          subst hh
          simpa [List.takeWhile_cons] using hd
      · rw [begins_dollar_iff]
        rintro ⟨tag, ht, rest, rfl⟩
        apply hs rest
        simpa using (R.takeWhile_isTagPart ht rest).2
  · rename_i hd
    refine .placeholder ?_ (fun c hc => List.mem_takeWhile_imp hc) (fun c hc => head?_dropWhile hc)
    simpa using hd

/-- What is read is what the rules say. -/
theorem lexeme_read (R : Rules) {c : Char} (hc : isSpace c = false) (cs : List Char) :
    Lexeme R (R.read c cs).1 (R.read c cs).2 := by
  -- in the order in which the scanner tries the kinds of tokens
  by_cases hd : c = '$'
  · subst hd
    exact lexeme_readDollar R cs
  by_cases hb : Begins R (c :: cs)
  · rcases begins_cons_iff.1 hb with ⟨rfl, h⟩ | ⟨rfl, h⟩ | rfl | rfl | ⟨he, h⟩ | ⟨rfl, -⟩
    · obtain ⟨ds, rfl⟩ : ∃ ds, cs = '-' :: ds := ⟨_, eq_cons_of_head? (by simp [h])⟩
      rw [R.read_lineComment]
      refine .lineComment (fun d hd => ?_) (fun d hd => ?_)
      · simpa using List.mem_takeWhile_imp hd
      · simpa using head?_dropWhile hd
    · obtain ⟨ds, rfl⟩ : ∃ ds, cs = '*' :: ds := ⟨_, eq_cons_of_head? (by simp [h])⟩
      exact Opening.lexeme_read (o := .comment) trivial ds
    · exact Opening.lexeme_read (o := .string) trivial cs
    · exact Opening.lexeme_read (o := .identifier) trivial cs
    · obtain ⟨ds, rfl⟩ : ∃ ds, cs = '\'' :: ds := ⟨_, eq_cons_of_head? (by simp [h])⟩
      rw [R.read_escapeString he]
      exact Opening.lexeme_read (o := .escapeString c) he ds
    · exact absurd rfl hd
  by_cases hn : startsNumeral c cs = true
  · rw [R.read_number hn]
    refine .number (numeral_splitNumber hn) fun ds h hp => splitNumber_longest h ?_
    rwa [splitNumber_append] at hp
  rw [Bool.not_eq_true] at hn
  cases hw : isWordStart c with
  | true =>
    rw [R.read_word hw hb]
    refine .word hw (fun d hd => List.mem_takeWhile_imp hd) (fun d hd => head?_dropWhile hd) ?_
    rwa [List.cons_append, List.takeWhile_append_dropWhile]
  | false =>
    rw [R.read_punct hw hn hd hb]
    exact .punct hc hw (no_numeral_begins hn) (fun h => absurd h hd) hb

theorem Lexeme.text_ne_nil {R : Rules} {t : Token} {rest : List Char} (h : Lexeme R t rest) :
    t.text ≠ [] := by
  have ho : ∀ o : Opening, o.text ≠ [] := by intro o; cases o <;> simp [Opening.text, delimiter]
  cases h with
  | closed => simp [ho]
  | unclosed => simp [ho]
  | number hn =>
    obtain ⟨c, ds, rfl, -⟩ := hn.startsNumeral []
    simp
  | _ => simp

theorem Rules.readDollar_tagged (R : Rules) {tag : List Char} (ht : R.IsTag tag) (cs : List Char) :
    R.readDollar (tag ++ '$' :: cs) = (Opening.tagged tag).read cs := by
  obtain ⟨h1, h2⟩ := R.takeWhile_isTagPart ht cs
  have hd : ((tag ++ '$' :: cs).takeWhile Char.isDigit).isEmpty = true := by
    cases tag with
    | nil => rfl
    | cons c tag =>
      have hc := ht.1 c (by simp)
      have hn : c.isDigit = false := by
        rw [Bool.eq_false_iff]
        intro hn
        simp [R.isTagLetter_digit c hn] at hc
      simp [hn]
  rw [Rules.readDollar, if_pos hd, h1]
  split
  · rename_i rest h
    rw [h2, List.cons.injEq] at h
    rw [h.2]
  · rename_i h
    exact absurd h2 (h cs)

theorem Rules.readDollar_placeholder (R : Rules) {ds rest : List Char} (hne : ds ≠ [])
    (hd : ∀ c ∈ ds, c.isDigit = true) (hr : ∀ c ∈ rest.head?, c.isDigit = false) :
    R.readDollar (ds ++ rest) = (⟨.placeholder (placeholderIndex ds), '$' :: ds⟩, rest) := by
  rw [Rules.readDollar, takeWhile_exact hd hr, dropWhile_exact hd hr, if_neg (by simpa using hne)]

theorem Rules.readDollar_punct (R : Rules) {cs : List Char} (hd : ∀ c ∈ cs.head?, c.isDigit = false)
    (hb : ¬Begins R ('$' :: cs)) : R.readDollar cs = (⟨.punct '$', ['$']⟩, cs) := by
  have he : (cs.takeWhile Char.isDigit).isEmpty = true := by
    cases cs with
    | nil => rfl
    | cons c cs => simp [hd c (by simp)]
  rw [Rules.readDollar, if_pos he]
  split
  · rename_i rest h
    refine absurd (begins_dollar_iff.2 ⟨_, R.isTag_takeWhile he, rest, ?_⟩) hb
    rw [List.append_assoc, List.singleton_append, ← h, List.takeWhile_append_dropWhile]
  · rfl

theorem Rules.read_opening (R : Rules) {o : Opening} (ho : o.Allowed R) {c : Char}
    {cs ds : List Char} (he : o.text ++ ds = c :: cs) : R.read c cs = o.read ds := by
  cases o with
  | tagged tag =>
    simp only [Opening.text, delimiter, List.cons_append, List.append_assoc, List.nil_append,
      List.cons.injEq] at he
    obtain ⟨rfl, rfl⟩ := he
    exact R.readDollar_tagged ho ds
  | escapeString e =>
    obtain ⟨rfl, rfl⟩ := List.cons.inj he
    exact R.read_escapeString ho ds
  | _ =>
    obtain ⟨rfl, rfl⟩ := List.cons.inj he
    rfl

/-- The rules allow no other reading. -/
theorem read_of_lexeme {R : Rules} {t : Token} {rest : List Char} (h : Lexeme R t rest) {c : Char}
    {cs : List Char} (he : t.text ++ rest = c :: cs) : R.read c cs = (t, rest) := by
  cases h with
  | @closed o body _ ho hc =>
    rw [List.append_assoc] at he
    rw [R.read_opening ho he, Opening.read_of_closes hc]
  | @unclosed o ds ho hc =>
    rw [List.append_nil] at he
    rw [R.read_opening ho he, Opening.read_of_not_closes hc]
  | @lineComment ds _ hd hr =>
    simp only [List.cons_append, List.cons.injEq] at he
    obtain ⟨rfl, rfl⟩ := he
    rw [R.read_lineComment, takeWhile_exact, dropWhile_exact]
    all_goals simpa
  | @placeholder ds _ hne hd hr =>
    simp only [List.cons_append, List.cons.injEq] at he
    obtain ⟨rfl, rfl⟩ := he
    exact R.readDollar_placeholder hne hd hr
  | @number ds _ hn hl =>
    obtain ⟨d, es, rfl, hs⟩ := hn.startsNumeral rest
    simp only [List.cons_append, List.cons.injEq] at he
    obtain ⟨rfl, rfl⟩ := he
    have hsplit := splitNumber_of_longest hn hl (numeral_splitNumber hs)
    rw [List.cons_append] at hsplit
    rw [R.read_number hs, hsplit]
  | @word d ds _ hw hd hr hb =>
    simp only [List.cons_append, List.cons.injEq] at he hb
    obtain ⟨rfl, rfl⟩ := he
    rw [R.read_word hw hb, takeWhile_exact hd hr, dropWhile_exact hd hr]
  | @punct d _ hc hw hn hd hb =>
    simp only [List.cons_append, List.nil_append, List.cons.injEq] at he
    obtain ⟨rfl, rfl⟩ := he
    by_cases hdollar : d = '$'
    · subst hdollar
      exact R.readDollar_punct (hd rfl) hb
    · refine R.read_punct hw ?_ hdollar hb
      rw [Bool.eq_false_iff]
      intro hs
      exact hn _ (numeral_splitNumber hs) ⟨_, splitNumber_append false false false (d :: rest)⟩

theorem Rules.readDollar_append (R : Rules) (cs : List Char) :
    (R.readDollar cs).1.text ++ (R.readDollar cs).2 = '$' :: cs := by
  unfold Rules.readDollar
  split
  · split
    · rename_i rest h
      rw [Opening.read_append, Opening.text, delimiter, List.cons_append, List.cons_append,
        List.append_assoc, List.singleton_append, ← h, List.takeWhile_append_dropWhile]
    · rfl
  · simp [List.takeWhile_append_dropWhile]

/-- The token and the text behind it are the text that was read. -/
theorem Rules.read_append (R : Rules) (c : Char) (cs : List Char) :
    (R.read c cs).1.text ++ (R.read c cs).2 = c :: cs := by
  unfold Rules.read
  split
  · simp [List.takeWhile_append_dropWhile]
  split
  · rename_i h
    rw [eq_of_beq h]
    exact R.readDollar_append cs
  · exact Token.read_append c cs

/-- Rules and reading say the same. -/
theorem lexeme_iff_read {R : Rules} {t : Token} {c : Char} {cs rest : List Char}
    (hc : isSpace c = false) :
    Lexeme R t rest ∧ t.text ++ rest = c :: cs ↔ R.read c cs = (t, rest) := by
  constructor
  · rintro ⟨h, he⟩
    exact read_of_lexeme h he
  · intro h
    have hl := lexeme_read R hc cs
    have ha := R.read_append c cs
    rw [h] at hl ha
    exact ⟨hl, ha⟩

end SpatialQuery.Lexical
