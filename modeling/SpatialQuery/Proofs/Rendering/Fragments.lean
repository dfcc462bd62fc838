import Mathlib.Data.List.Chain
import SpatialQuery.Proofs.Lexical.Plain
import SpatialQuery.Sql.Fragment

/-!
Fragments are read as they are written. Where none of them runs into the next one (`Legible`), the scan
of their text has one token for each fragment that is no blank (`ofChars_texts`).
-/

namespace SpatialQuery.Sql

open Token Lexical

namespace Fragment

/-- The token of a fragment, with the number of its placeholder. A blank has none. -/
def token? (index : Nat) : Fragment → Option Token
  | blank => none
  | keyword word => some ⟨.word, word.toList⟩
  | name i => some ⟨.quotedIdentifier, '"' :: i.name.toList ++ ['"']⟩
  | symbol c => some ⟨.punct c, [c]⟩
  | number n => some ⟨.number, Text.ofNat n⟩
  | anyText => some ⟨.stringLiteral, ['\'', '%', '\'']⟩
  | param _ => some ⟨.placeholder (placeholderIndex (Text.ofNat index)), '$' :: Text.ofNat index⟩

/-- The number of the next placeholder behind the fragment. -/
def next (index : Nat) : Fragment → Nat
  | param _ => index + 1
  | _ => index

/-- What the text of the fragments scans to, with blanks in front of it. -/
def scan (blanks : List Char) (index : Nat) : List Fragment → Scan
  | [] => ⟨[], blanks⟩
  | f :: fs =>
    match f.token? index with
    | none => scan (blanks ++ [' ']) index fs
    | some t =>
      ⟨⟨blanks, t⟩ :: (scan [] (f.next index) fs).pieces, (scan [] (f.next index) fs).trailing⟩

/-- The tokens of the fragments. -/
def tokens (index : Nat) : List Fragment → List Token
  | [] => []
  | f :: fs => (f.token? index).toList ++ tokens (f.next index) fs

/-! ## Fragments in a row -/

/-- The characters that are used as symbols. -/
def symbols : List Char := [',', '.', '*', '(', ')', '=', '<', '>', '|']

/-- A word that is no single letter. -/
def isKeywordText : List Char → Bool
  | c :: d :: cs => isWordStart c && (d :: cs).all isWordPart
  | _ => false

/-- The fragment is one of a known kind, its keywords being among `ws`. -/
def isKnown (ws : List String) : Fragment → Bool
  | keyword word => ws.contains word
  | symbol c => symbols.contains c
  | _ => true

/-- The second fragment may follow the first one directly. -/
def mayPrecede : Fragment → Fragment → Bool
  | blank, _ | _, blank => true
  | number _, symbol c => c != '.'
  | _, symbol _ => true
  | symbol c, number _ => c != '.'
  | symbol _, _ => true
  | _, _ => false

/-- The two fragments do not begin the call of a function with a quoted name. -/
def isNoCall : Fragment → Fragment → Bool
  | name _, symbol c => c != '('
  | _, _ => true

def isSolid : Fragment → Bool
  | blank => false
  | _ => true

end Fragment

open Fragment

/-- The fragments do not run into each other, and no quoted name is called. -/
structure Apart (fs : List Fragment) : Prop where
  precede : fs.IsChain (mayPrecede · · = true)
  uncalled : (fs.filter isSolid).IsChain (isNoCall · · = true)

/-- The fragments are of known kinds and can be told apart. -/
structure Legible (ws : List String) (fs : List Fragment) : Prop where
  known : ∀ f ∈ fs, f.isKnown ws = true
  apart : Apart fs

namespace Fragment

theorem texts_cons (index : Nat) (f : Fragment) (fs : List Fragment) :
    texts index (f :: fs) = f.text index ++ texts (f.next index) fs := by
  cases f <;> rfl

theorem text_of_token? {index : Nat} {f : Fragment} {t : Token} (h : f.token? index = some t) :
    f.text index = t.text := by
  cases f <;> cases h <;> rfl

theorem token?_of_isSolid {f : Fragment} (h : f.isSolid = true) (index : Nat) :
    ∃ t, f.token? index = some t := by
  cases f with
  | blank => cases h
  | _ => exact ⟨_, rfl⟩

theorem text_scan (blanks : List Char) (index : Nat) (fs : List Fragment) :
    (scan blanks index fs).text = blanks ++ texts index fs := by
  induction fs generalizing blanks index with
  | nil => simp [scan, texts]
  | cons f fs ih =>
    rw [scan, texts_cons]
    split
    · rename_i hnone
      obtain rfl : f = blank := by cases f <;> first | rfl | cases hnone
      rw [ih, List.append_assoc]
      rfl
    · rename_i t hsome
      rw [text_cons, text_of_token? hsome]
      change _ ++ (_ ++ Scan.text (scan [] (f.next index) fs)) = _
      rw [ih, List.nil_append]

theorem tokens_scan (blanks : List Char) (index : Nat) (fs : List Fragment) :
    (scan blanks index fs).tokens = tokens index fs := by
  induction fs generalizing blanks index with
  | nil => rfl
  | cons f fs ih =>
    rw [scan, tokens]
    split
    · rename_i hnone
      obtain rfl : f = blank := by cases f <;> first | rfl | cases hnone
      exact ih _ _
    · rename_i t hsome
      rw [hsome, Scan.tokens, List.map_cons]
      exact congrArg (t :: ·) (ih _ _)

theorem tokens_append (index : Nat) (fs gs : List Fragment) :
    tokens index (fs ++ gs) = tokens index fs ++ tokens (fs.foldl next index) gs := by
  induction fs generalizing index with
  | nil => rfl
  | cons f fs ih =>
    rw [List.cons_append, tokens, ih, tokens, List.append_assoc]
    rfl

/-- The blanks at the end of the first fragments stand in front of the others. -/
theorem scan_append (blanks : List Char) (index : Nat) (fs gs : List Fragment) :
    scan blanks index (fs ++ gs) =
      ⟨(scan blanks index fs).pieces ++
          (scan (scan blanks index fs).trailing (fs.foldl next index) gs).pieces,
        (scan (scan blanks index fs).trailing (fs.foldl next index) gs).trailing⟩ := by
  induction fs generalizing blanks index with
  | nil => rfl
  | cons f fs ih =>
    rw [List.cons_append, scan, scan]
    cases hf : f.token? index with
    | none =>
      obtain rfl : f = blank := by cases f <;> first | rfl | cases hf
      exact ih _ _
    | some t =>
      dsimp only
      rw [ih]
      rfl

theorem trailing_scan {fs : List Fragment} (h : ∃ f ∈ fs.getLast?, f.isSolid = true) (blanks : List Char)
    (index : Nat) : (scan blanks index fs).trailing = [] := by
  obtain ⟨f, hf, hsolid⟩ := h
  obtain ⟨gs, rfl⟩ := List.getLast?_eq_some_iff.1 hf
  rw [scan_append]
  cases f with
  | blank => cases hsolid
  | _ => rfl

theorem mem_tokens {t : Token} {index : Nat} {fs : List Fragment} (h : t ∈ tokens index fs) :
    ∃ f ∈ fs, ∃ i, f.token? i = some t := by
  induction fs generalizing index with
  | nil => cases h
  | cons f fs ih =>
    rw [tokens, List.mem_append, Option.mem_toList] at h
    rcases h with h | h
    · exact ⟨f, by simp, index, h⟩
    · obtain ⟨g, hg, i, hi⟩ := ih h
      exact ⟨g, by simp [hg], i, hi⟩

/-- The words among the tokens are the known ones. -/
theorem isAnyKeyword_of_word {ws : List String} {t : Token} {index : Nat} {f : Fragment}
    (hf : f.isKnown ws = true) (ht : f.token? index = some t) (hw : t.kind = .word) :
    t.isAnyKeyword ws = true := by
  cases f with
  | keyword word =>
    cases ht
    rw [isKnown, List.contains_iff_mem] at hf
    refine List.any_eq_true.2 ⟨word, hf, ?_⟩
    simp [isKeyword, Text.sameLetters]
  | blank => cases ht
  | _ =>
    cases ht
    cases hw

theorem isAnyKeyword_of_known {ws others : List String} (hapart : Lexical.apart ws others = true)
    {t : Token} {index : Nat} {f : Fragment} (hf : f.isKnown ws = true) (ht : f.token? index = some t) :
    t.isAnyKeyword others = false := by
  by_cases hw : t.kind = .word
  · exact not_isAnyKeyword (isAnyKeyword_of_word hf ht hw) hapart
  · exact isAnyKeyword_of_kind hw others

theorem isAnyKeyword_tokens {ws others : List String} (hapart : Lexical.apart ws others = true) {index : Nat}
    {fs : List Fragment} (h : ∀ f ∈ fs, f.isKnown ws = true) :
    ∀ t ∈ tokens index fs, t.isAnyKeyword others = false := by
  intro t ht
  obtain ⟨f, hf, i, hi⟩ := mem_tokens ht
  exact isAnyKeyword_of_known hapart (h f hf) hi

/-! ## Where a fragment ends -/

/-- What follows a fragment that is no symbol: a blank or a symbol. -/
def isStop (c : Char) : Bool :=
  c == ' ' || symbols.contains c

theorem isStop_facts {c : Char} (h : isStop c = true) : isWordPart c = false ∧ c ≠ '"' ∧ c ≠ '\'' ∧
    c.isDigit = false ∧ (c ≠ '.' → continuesNumeral c = false) := by
  simp only [isStop, symbols, List.contains_cons, List.contains_nil, Bool.or_false, Bool.or_eq_true,
    beq_iff_eq] at h
  rcases h with rfl | rfl | rfl | rfl | rfl | rfl | rfl | rfl | rfl | rfl <;> decide

theorem head?_texts {index : Nat} {f g : Fragment} {fs : List Fragment} {ws : List String}
    (hknown : g.isKnown ws = true) (h : f.mayPrecede g = true) (hf : ∀ c, f ≠ symbol c) (hb : f ≠ blank) :
    ∀ c ∈ (texts index (g :: fs)).head?, isStop c = true ∧ ((∃ n, f = number n) → c ≠ '.') := by
  have hg : g = blank ∨ ∃ c, g = symbol c ∧ ((∃ n, f = number n) → c ≠ '.') := by
    cases g with
    | blank => exact .inl rfl
    | symbol c =>
      refine .inr ⟨c, rfl, ?_⟩
      rintro ⟨n, rfl⟩
      simpa [mayPrecede] using h
    | _ => cases f <;> simp_all [mayPrecede]
  rcases hg with rfl | ⟨d, rfl, hd⟩
  · rintro c ⟨⟩
    exact ⟨rfl, fun _ => by decide⟩
  · rintro c ⟨⟩
    exact ⟨by rw [isStop, Bool.or_eq_true]; exact .inr hknown, hd⟩

theorem lexeme_symbol {c : Char} (hc : symbols.contains c = true) {rest : List Char}
    (hpoint : c = '.' → ∀ d ∈ rest.head?, d.isDigit = false) :
    Lexeme .scanned ⟨.punct c, [c]⟩ rest := by
  have hfacts : isSpace c = false ∧ isWordStart c = false ∧ c.isDigit = false ∧ c ≠ '$' ∧ c ≠ '-' ∧ c ≠ '/' ∧
      c ≠ '\'' ∧ c ≠ '"' ∧ c ≠ 'E' ∧ c ≠ 'e' := by
    simp only [symbols, List.contains_cons, List.contains_nil, Bool.or_false, Bool.or_eq_true,
      beq_iff_eq] at hc
    rcases hc with rfl | rfl | rfl | rfl | rfl | rfl | rfl | rfl | rfl <;> decide
  obtain ⟨hspace, hword, hdigit, hdollar, hminus, hslash, hquote, hname, hE, he⟩ := hfacts
  refine .punct hspace hword (no_numeral_begins ?_) (fun h => absurd h hdollar) ?_
  · rw [startsNumeral, hdigit, Bool.false_or, Bool.and_eq_false_imp, beq_iff_eq]
    intro hp
    cases rest with
    | nil => rfl
    | cons d ds => exact hpoint hp d rfl
  · rw [begins_cons_iff]
    rintro (⟨h, -⟩ | ⟨h, -⟩ | h | h | ⟨h | h, -⟩ | ⟨h, -⟩)
    · exact hminus h
    · exact hslash h
    · exact hquote h
    · exact hname h
    · exact hE h
    · exact he h
    · exact hdollar h

/-- A plain name needs no doubled quotes. -/
theorem not_mem_name (i : Identifier) {c : Char} (hc : isNamePart c = false) : c ∉ i.name.toList := by
  intro hmem
  rw [isNamePart_of_plain i.isPlain c hmem] at hc
  cases hc

theorem isKeywordText_cases {cs : List Char} (h : isKeywordText cs = true) :
    ∃ c d ds, cs = c :: d :: ds ∧ isWordStart c = true ∧ ∀ e ∈ d :: ds, isWordPart e = true := by
  rcases cs with _ | ⟨c, _ | ⟨d, ds⟩⟩
  · cases h
  · cases h
  · rw [isKeywordText, Bool.and_eq_true, List.all_eq_true] at h
    exact ⟨c, d, ds, rfl, h.1, h.2⟩

/-- Only a number begins with a digit. -/
theorem head?_not_digit {ws : List String} (hws : ∀ w ∈ ws, isKeywordText w.toList = true) {index : Nat}
    {g : Fragment} {fs : List Fragment} (hknown : g.isKnown ws = true) (hn : ∀ n, g ≠ number n) :
    ∀ c ∈ (texts index (g :: fs)).head?, c.isDigit = false := by
  cases g with
  | number n => exact absurd rfl (hn n)
  | keyword word =>
    have hword : word ∈ ws := by simpa [isKnown] using hknown
    obtain ⟨c, d, ds, htext, hc, -⟩ := isKeywordText_cases (hws word hword)
    rw [texts_cons, text, htext]
    rintro e ⟨⟩
    exact Bool.eq_false_iff.2 fun hd => by simp [isWordStart_of_isDigit hd] at hc
  | symbol c =>
    rintro e ⟨⟩
    have hstop : isStop c = true := by rw [isStop, Bool.or_eq_true]; exact .inr hknown
    exact (isStop_facts hstop).2.2.2.1
  | blank => rintro e ⟨⟩; rfl
  | name i => rintro e ⟨⟩; rfl
  | anyText => rintro e ⟨⟩; rfl
  | param v => rintro e ⟨⟩; rfl

/-- In front of a fragment that may follow, a fragment is read as its token. -/
theorem lexeme_fragment {ws : List String} (hws : ∀ w ∈ ws, isKeywordText w.toList = true) {index : Nat}
    {f : Fragment} {t : Token} (ht : f.token? index = some t) {fs : List Fragment}
    (hf : f.isKnown ws = true) (hfs : ∀ g ∈ fs, g.isKnown ws = true)
    (h : ∀ g ∈ fs.head?, f.mayPrecede g = true) :
    Lexeme .scanned t (texts (f.next index) fs) := by
  -- behind anything but a symbol stands a blank or a symbol
  have hhead : (∀ c, f ≠ symbol c) → f ≠ blank → ∀ c ∈ (texts (f.next index) fs).head?,
      isStop c = true ∧ ((∃ n, f = number n) → c ≠ '.') := by
    intro hsymbol hblank
    cases fs with
    | nil => nofun
    | cons g gs => exact head?_texts (hfs g (by simp)) (h g rfl) hsymbol hblank
  cases f with
  | blank => cases ht
  | symbol c =>
    cases ht
    refine lexeme_symbol hf ?_
    -- a point would begin a numeral in front of a digit
    rintro rfl
    cases fs with
    | nil => nofun
    | cons g gs =>
      refine head?_not_digit hws (hfs g (by simp)) ?_
      rintro n rfl
      exact absurd (h _ rfl) Bool.false_ne_true
  | keyword word =>
    cases ht
    have hword : word ∈ ws := by simpa [isKnown] using hf
    obtain ⟨c, d, ds, htext, hc, hds⟩ := isKeywordText_cases (hws word hword)
    rw [htext]
    exact lexeme_word hc hds fun e he => (isStop_facts (hhead nofun nofun e he).1).1
  | name i =>
    cases ht
    refine lexeme_identifier (not_mem_name i rfl) fun hq => ?_
    exact (isStop_facts (hhead nofun nofun _ hq).1).2.1 rfl
  | number n =>
    cases ht
    refine lexeme_number (numeral_ofNat n) fun e he => ?_
    obtain ⟨hstop, hpoint⟩ := hhead nofun nofun e he
    exact (isStop_facts hstop).2.2.2.2 (hpoint ⟨n, rfl⟩)
  | anyText =>
    cases ht
    have hinside : '\'' ∉ ['%'] := by decide
    refine lexeme_literal hinside fun hq => ?_
    exact (isStop_facts (hhead nofun nofun _ hq).1).2.2.1 rfl
  | param v =>
    cases ht
    exact .placeholder (ofNat_ne_nil index) Text.isDigit_ofNat fun e he =>
      (isStop_facts (hhead nofun nofun e he).1).2.2.2.1

end Fragment

/-! ## The scan of legible fragments -/

section Legible

variable {ws : List String} (hws : ∀ w ∈ ws, isKeywordText w.toList = true)

include hws

theorem readable_scan {fs : List Fragment} (hknown : ∀ f ∈ fs, f.isKnown ws = true)
    (hapart : fs.IsChain (mayPrecede · · = true)) {blanks : List Char}
    (hb : ∀ c ∈ blanks, isSpace c = true) (index : Nat) : Readable (scan blanks index fs) := by
  -- over any blanks in front, which grow up to the next token
  induction fs generalizing blanks index with
  | nil => exact readable_nil.2 hb
  | cons f fs ih =>
    rw [List.forall_mem_cons] at hknown
    rw [List.isChain_cons] at hapart
    rw [scan]
    split
    · refine ih hknown.2 hapart.2 (fun c hc => ?_) index
      rcases List.mem_append.1 hc with hc | hc
      · exact hb c hc
      · rw [List.mem_singleton.1 hc]
        rfl
    · rename_i t ht
      have hl := lexeme_fragment hws ht hknown.1 hknown.2 hapart.1
      have hnil : ∀ c ∈ ([] : List Char), isSpace c = true := by simp
      have hread := ih hknown.2 hapart.2 hnil (f.next index)
      have htext := text_scan [] (f.next index) fs
      rw [List.nil_append] at htext
      exact readable_cons.2 ⟨hb, by rwa [← htext] at hl, hread⟩

/-- The text of legible fragments is scanned as they say. -/
theorem ofChars_texts {fs : List Fragment} (h : Legible ws fs) (index : Nat) :
    Scan.ofChars (texts index fs) = scan [] index fs := by
  have htext : texts index fs = (scan [] index fs).text := by
    rw [text_scan, List.nil_append]
  rw [htext]
  exact ofChars_text (readable_scan hws h.known h.apart.precede (by simp) index)

end Legible

end SpatialQuery.Sql
