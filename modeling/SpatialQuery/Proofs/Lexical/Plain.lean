import SpatialQuery.Proofs.Lexical.Rescan
import SpatialQuery.Text.Integer

/-!
Tokens that are known by their text: words, numerals, single characters, and quoted texts without a
quote inside. What may follow each of them is said with it. A literal in quotes may give way to that of any
text: what stands around it is read as it was (`scan_withLiteral`).
-/

namespace SpatialQuery.Lexical

open Token

/-! ## Quoted texts -/

theorem quoted_of_not_mem {q : Char} {cs : List Char} (h : q ∉ cs) : Quoted q false cs := by
  induction cs with
  | nil => exact .nil
  | cons c cs ih =>
    rw [List.mem_cons, not_or] at h
    exact .plain (Ne.symm h.1) (by simp) (ih h.2)

theorem lexeme_literal {value : List Char} (h : '\'' ∉ value) {rest : List Char}
    (hr : rest.head? ≠ some '\'') :
    Lexeme .scanned ⟨.stringLiteral, '\'' :: value ++ ['\'']⟩ rest :=
  .closed (o := .string) trivial ⟨value, quoted_of_not_mem h, rfl, hr⟩

theorem lexeme_identifier {name : List Char} (h : '"' ∉ name) {rest : List Char}
    (hr : rest.head? ≠ some '"') :
    Lexeme .scanned ⟨.quotedIdentifier, '"' :: name ++ ['"']⟩ rest :=
  .closed (o := .identifier) trivial ⟨name, quoted_of_not_mem h, rfl, hr⟩

/-- A text in quotes ends in front of no quote, and one between tags has dollar signs at its ends. -/
theorem literal_cases {R : Rules} {t : Token} {rest : List Char} (h : Lexeme R t rest)
    (hk : t.kind = .stringLiteral) :
    rest.head? ≠ some '\'' ∨ t.text.head? = some '$' ∧ t.text.getLast? = some '$' := by
  cases h with
  | @closed o body _ ho hc =>
    cases o with
    | string => obtain ⟨_, -, -, hr⟩ := hc; exact .inl hr
    | escapeString e => obtain ⟨_, -, -, hr⟩ := hc; exact .inl hr
    | identifier => cases hk
    | comment => cases hk
    | tagged tag =>
      obtain ⟨cs, rfl, -⟩ := hc
      refine .inr ⟨rfl, ?_⟩
      simp only [delimiter, ← List.append_assoc, List.getLast?_concat]
  | _ => cases hk

theorem head?_of_literal {R : Rules} {t : Token} {rest : List Char} (h : Lexeme R t rest)
    (hk : t.kind = .stringLiteral) (hlast : t.text.getLast? = some '\'') :
    rest.head? ≠ some '\'' := by
  refine (literal_cases h hk).resolve_right fun hdollar => ?_
  rw [hdollar.2] at hlast
  exact absurd hlast (by decide)

/-! ## Numerals -/

theorem isFigures_of_digits {cs : List Char} (hne : cs ≠ []) (h : ∀ c ∈ cs, c.isDigit = true) :
    IsFigures cs := by
  obtain ⟨c, cs, rfl⟩ := List.exists_cons_of_ne_nil hne
  exact ⟨⟨c, rfl, h c (by simp)⟩, fun d hd => by simp [isFigure, h d hd]⟩

theorem lexeme_number_iff {R : Rules} {num rest : List Char} : Lexeme R ⟨.number, num⟩ rest ↔
    Numeral num ∧ splitNumber false false false (num ++ rest) = (num, rest) := by
  constructor
  · intro h
    generalize ht : (⟨.number, num⟩ : Token) = t at h
    cases h with
    | @closed o => cases o <;> cases ht
    | number hn hl =>
      cases ht
      obtain ⟨c, ds, rfl, hstart⟩ := hn.startsNumeral rest
      exact ⟨hn, splitNumber_of_longest hn hl (numeral_splitNumber hstart)⟩
    | _ => cases ht
  · rintro ⟨hn, hsplit⟩
    refine .number hn fun ds hds hp => ?_
    have hle := splitNumber_longest hds hp
    rwa [hsplit] at hle

theorem numeral_of_isNumber {R : Rules} {t : Token} {rest : List Char} (h : Lexeme R t rest)
    (hk : t.isNumber = true) : Numeral t.text := by
  obtain ⟨kind, text⟩ := t
  obtain rfl : kind = .number := eq_of_beq hk
  exact (lexeme_number_iff.1 h).1

/-- What follows a number does not depend on its digits. -/
theorem lexeme_digits {R : Rules} {ds es rest : List Char} (h : Lexeme R ⟨.number, ds⟩ rest)
    (hds : ∀ c ∈ ds, c.isDigit = true) (hne : es ≠ []) (hes : ∀ c ∈ es, c.isDigit = true) :
    Lexeme R ⟨.number, es⟩ rest := by
  have hfigure : ∀ {cs : List Char}, (∀ c ∈ cs, c.isDigit = true) → ∀ c ∈ cs, isFigure c = true := by
    intro cs h c hc
    simp [isFigure, h c hc]
  obtain ⟨-, hsplit⟩ := lexeme_number_iff.1 h
  rw [splitNumber_figures (hfigure hds), after, Prod.mk.injEq, List.append_right_eq_self] at hsplit
  refine lexeme_number_iff.2 ⟨⟨es, [], .whole (isFigures_of_digits hne hes), .none, by simp⟩, ?_⟩
  rw [splitNumber_figures (hfigure hes), after, hsplit.1, hsplit.2, List.append_nil]

theorem lexeme_number {num : List Char} (h : Numeral num) {rest : List Char}
    (hr : ∀ c ∈ rest.head?, continuesNumeral c = false) : Lexeme .scanned ⟨.number, num⟩ rest := by
  refine .number h fun ps hps hp => ?_
  rcases prefix_append_cases hp with hp | ⟨c, hc, qs, rfl⟩
  · exact hp.length_le
  · have hcont := hps.continues c (by simp)
    rw [hr c hc] at hcont
    cases hcont

theorem ofNat_ne_nil (n : Nat) : Text.ofNat n ≠ [] := by
  intro h
  have hpos := Nat.length_toDigits_pos (b := 10) (n := n)
  rw [Text.ofNat] at h
  simp [h] at hpos

theorem numeral_ofNat (n : Nat) : Numeral (Text.ofNat n) :=
  ⟨_, [], .whole (isFigures_of_digits (ofNat_ne_nil n) Text.isDigit_ofNat), .none, by simp⟩

/-! ## Single characters -/

def openParen : Token :=
  ⟨.punct '(', ['(']⟩

def closeParen : Token :=
  ⟨.punct ')', [')']⟩

/-- Nothing longer begins with a parenthesis or an asterisk. -/
theorem lexeme_mark {c : Char} (hc : c = '(' ∨ c = ')' ∨ c = '*') (rest : List Char) :
    Lexeme .scanned ⟨.punct c, [c]⟩ rest := by
  have hb : ¬Begins .scanned (c :: rest) := by
    rw [begins_cons_iff]
    rcases hc with rfl | rfl | rfl <;> simp
  rcases hc with rfl | rfl | rfl
  · exact .punct rfl rfl (no_numeral_begins rfl) (fun h => absurd h (by decide)) hb
  · exact .punct rfl rfl (no_numeral_begins rfl) (fun h => absurd h (by decide)) hb
  · exact .punct rfl rfl (no_numeral_begins rfl) (fun h => absurd h (by decide)) hb

theorem lexeme_minus {rest : List Char} (hr : rest.head? ≠ some '-') :
    Lexeme .scanned ⟨.punct '-', ['-']⟩ rest := by
  refine .punct rfl rfl (no_numeral_begins rfl) (fun h => absurd h (by decide)) ?_
  rw [begins_cons_iff]
  simpa using hr

theorem percent_of_head {R : Rules} {t : Token} {rest : List Char} (h : Lexeme R t rest)
    (he : t.text.head? = some '%') : t = ⟨.punct '%', ['%']⟩ := by
  obtain ⟨cs, htext⟩ : ∃ cs, t.text = '%' :: cs := ⟨_, eq_cons_of_head? (by simp [he])⟩
  have hb : ¬Begins R ('%' :: (cs ++ rest)) := by
    rw [begins_cons_iff]
    simp
  have hread := read_of_lexeme h (c := '%') (by rw [htext, List.cons_append])
  rw [R.read_punct rfl rfl (by decide) hb, Prod.mk.injEq] at hread
  exact hread.1.symm

theorem head?_of_placeholder {R : Rules} {t : Token} {rest : List Char} (h : Lexeme R t rest)
    {n : Nat} (hk : t.kind = .placeholder n) : t.text.head? = some '$' := by
  cases h with
  | @closed o => cases o <;> cases hk
  | placeholder => rfl
  | _ => cases hk

/-! ## Words -/

theorem word_of_isKeyword {t : Token} {keyword : String} (h : t.isKeyword keyword = true) :
    t.kind = .word := by
  rw [isKeyword, Bool.and_eq_true, beq_iff_eq] at h
  exact h.1

theorem word_of_isAnyKeyword {t : Token} {keywords : List String}
    (h : t.isAnyKeyword keywords = true) : t.kind = .word := by
  obtain ⟨keyword, -, hk⟩ := List.any_eq_true.1 h
  exact word_of_isKeyword hk

theorem isAnyKeyword_of_kind {t : Token} (h : t.kind ≠ .word) (keywords : List String) :
    t.isAnyKeyword keywords = false := by
  rw [Bool.eq_false_iff]
  exact fun hk => h (word_of_isAnyKeyword hk)

/-- A keyword is no other one. -/
theorem not_isKeyword {t : Token} {a b : String} (h : t.isKeyword a = true)
    (hab : a.toList.map Char.toLower ≠ b.toList.map Char.toLower) : t.isKeyword b = false := by
  rw [Bool.eq_false_iff]
  intro hb
  rw [isKeyword, Bool.and_eq_true] at h hb
  exact hab ((eq_of_beq h.2).symm.trans (eq_of_beq hb.2))

/-- No word is spelled like one of the others. -/
def apart (words others : List String) : Bool :=
  words.all fun a => others.all fun b => a.toList.map Char.toLower != b.toList.map Char.toLower

theorem not_isAnyKeyword {t : Token} {words others : List String}
    (h : t.isAnyKeyword words = true) (hapart : apart words others = true) :
    t.isAnyKeyword others = false := by
  obtain ⟨a, ha, hk⟩ := List.any_eq_true.1 h
  rw [isAnyKeyword, List.any_eq_false]
  intro b hb
  have hne := List.all_eq_true.1 (List.all_eq_true.1 hapart a ha) b hb
  rw [not_isKeyword hk (by simpa using hne)]
  exact Bool.false_ne_true

theorem isKeyword_of_isAnyKeyword {t : Token} {words : List String} {a : String}
    (h : t.isAnyKeyword words = false) (ha : a ∈ words) : t.isKeyword a = false := by
  rw [isAnyKeyword, List.any_eq_false] at h
  exact Bool.eq_false_iff.2 (h a ha)

theorem isAnyKeyword_of_subset {t : Token} {words others : List String}
    (h : t.isAnyKeyword words = false) (hsub : others ⊆ words) : t.isAnyKeyword others = false := by
  rw [isAnyKeyword, List.any_eq_false]
  intro a ha
  rw [isKeyword_of_isAnyKeyword h (hsub ha)]
  exact Bool.false_ne_true

/-- A single `E` is left out: before a quote it opens a literal. -/
theorem lexeme_word {c d : Char} {cs rest : List Char} (hc : isWordStart c = true)
    (hcs : ∀ e ∈ d :: cs, isWordPart e = true) (hr : ∀ e ∈ rest.head?, isWordPart e = false) :
    Lexeme .scanned ⟨.word, c :: d :: cs⟩ rest := by
  refine .word hc hcs hr ?_
  rw [List.cons_append, List.cons_append, begins_word_iff hc]
  rintro ⟨-, hq⟩
  obtain rfl : d = '\'' := by simpa using hq
  exact absurd (hcs '\'' (by simp)) (by decide)

theorem head?_of_word {R : Rules} {t : Token} {rest : List Char} (h : Lexeme R t rest)
    (hk : t.kind = .word) : ∀ c ∈ rest.head?, isWordPart c = false := by
  cases h with
  | @closed o => cases o <;> cases hk
  | word _ _ hr => exact hr
  | _ => cases hk

theorem word_of_head {R : Rules} {t : Token} {rest : List Char} (h : Lexeme R t rest) {c : Char}
    {cs : List Char} (he : t.text = c :: cs) (hw : isWordStart c = true) (hE : c ≠ 'E' ∧ c ≠ 'e') :
    t.kind = .word ∧ (∀ d ∈ cs, isWordPart d = true) ∧ ∀ d ∈ rest.head?, isWordPart d = false := by
  have hb : ¬Begins R (c :: (cs ++ rest)) := by
    rw [begins_word_iff hw]
    rintro ⟨rfl | rfl, -⟩
    · exact hE.1 rfl
    · exact hE.2 rfl
  have hread := read_of_lexeme h (c := c) (by rw [he, List.cons_append])
  rw [R.read_word hw hb, Prod.mk.injEq] at hread
  obtain ⟨ht, hr⟩ := hread
  rw [← ht] at he ⊢
  simp only [List.cons.injEq, true_and] at he
  refine ⟨rfl, fun d hd => ?_, fun d hd => ?_⟩
  · rw [← he] at hd
    exact List.mem_takeWhile_imp hd
  · rw [← hr] at hd
    exact head?_dropWhile hd

/-! ## Literals in the place of others -/

/-- The literal of a text. -/
def literalOf (w : List Char) : Token :=
  ⟨.stringLiteral, Text.quote '\'' w⟩

/-- A literal that is closed and begins with its quote. -/
structure PlainLiteral (t : Token) : Prop where
  kind : t.kind = .stringLiteral
  head : t.text.head? = some '\''

theorem quoted_double (q : Char) (w : List Char) : Quoted q false (Text.double q w) := by
  induction w with
  | nil => exact .nil
  | cons c w ih =>
    rw [Text.double_cons]
    cases h : c == q with
    | true => exact .doubled ih
    | false => exact .plain (by simpa using h) (by simp) ih

theorem lexeme_literalOf (w : List Char) {rest : List Char} (hr : rest.head? ≠ some '\'') :
    Lexeme .scanned (literalOf w) rest :=
  .closed (o := .string) trivial ⟨Text.double '\'' w, quoted_double '\'' w, rfl, hr⟩

/-- Behind a plain literal stands no quote. -/
theorem PlainLiteral.head?_rest {t : Token} (h : PlainLiteral t) {rest : List Char}
    (hl : Lexeme .scanned t rest) : rest.head? ≠ some '\'' := by
  obtain ⟨hk, hhead⟩ := h
  refine (literal_cases hl hk).resolve_right fun hdollar => ?_
  rw [hdollar.1] at hhead
  exact absurd hhead (by decide)

/-- In front of a quote, a token ends where it did in front of another text that begins with one. -/
theorem Lexeme.of_quote {t : Token} {front xs ys : List Char}
    (h : Lexeme .scanned t (front ++ '\'' :: xs)) : Lexeme .scanned t (front ++ '\'' :: ys) := by
  have hcommon : Lexeme .scanned t ((front ++ ['\'']) ++ xs) := by simpa using h
  have hclosed : ∀ what, t.kind ≠ .unclosed what := by
    intro what hk
    generalize hrest : front ++ '\'' :: xs = rest at h
    cases h with
    | @closed o => cases o <;> cases hk
    | unclosed => simp at hrest
    | _ => cases hk
  have hquote : '\'' ∈ front ++ ['\''] := by simp
  have hsep : Separated (front ++ ['\'']) xs ys := fun c _ =>
    ⟨fun _ => ⟨'\'', hquote, rfl⟩, fun _ => .inr ⟨'\'', hquote, rfl⟩⟩
  have hread : Lexeme .scanned t ((front ++ ['\'']) ++ ys) := hcommon.of_common hclosed (by simp) fun _ _ => hsep
  simpa using hread

theorem readable_withLiteral {before behind : List Piece} {p : Piece} {trailing : List Char}
    (h : Readable ⟨before ++ p :: behind, trailing⟩) (hp : PlainLiteral p.token) (w : List Char) :
    Readable ⟨before ++ ⟨p.blanks, literalOf w⟩ :: behind, trailing⟩ := by
  induction before with
  | nil =>
    obtain ⟨hb, hl, hrest⟩ := readable_cons.1 h
    exact readable_cons.2 ⟨hb, lexeme_literalOf w (hp.head?_rest hl), hrest⟩
  | cons q before ih =>
    rw [List.cons_append] at h ⊢
    obtain ⟨hb, hl, hrest⟩ := readable_cons.1 h
    refine readable_cons.2 ⟨hb, ?_, ih hrest⟩
    obtain ⟨cs, htext⟩ : ∃ cs, p.token.text = '\'' :: cs := ⟨_, eq_cons_of_head? (by simp [hp.head])⟩
    rw [text_append, text_cons, htext, List.cons_append, ← List.append_assoc] at hl
    rw [text_append, text_cons, ← List.append_assoc]
    exact hl.of_quote

/-- A text with the literal of `w` in the place of one of its pieces. -/
def withLiteral (before : List Piece) (p : Piece) (behind : List Piece) (trailing : List Char) (w : String) : String :=
  String.ofList (Scan.text ⟨before ++ ⟨p.blanks, literalOf w.toList⟩ :: behind, trailing⟩)

theorem scan_withLiteral {sql : String} {before behind : List Piece} {p : Piece}
    (h : (Scan.ofString sql).pieces = before ++ p :: behind) (hp : PlainLiteral p.token) (w : String) :
    Scan.ofString (withLiteral before p behind (Scan.ofString sql).trailing w) =
      ⟨before ++ ⟨p.blanks, literalOf w.toList⟩ :: behind, (Scan.ofString sql).trailing⟩ := by
  have hread : Readable (Scan.ofString sql) := readable_ofChars sql.toList
  generalize Scan.ofString sql = s at h hread
  obtain ⟨ps, trailing⟩ := s
  obtain rfl : ps = before ++ p :: behind := h
  rw [withLiteral, Scan.ofString, String.toList_ofList]
  exact ofChars_text (readable_withLiteral hread hp w.toList)

end SpatialQuery.Lexical
