import SpatialQuery.Proofs.Lexical.Plain
import SpatialQuery.Proofs.View.Substitution

/-!
Views with values in the place of their parameters. `Fitting` says when the text the server runs falls
into the tokens of the statement, with the tokens of its values in the place of the placeholders; here
is what the pass over the text does.
-/

namespace SpatialQuery.View

open Token Lexical

/-- What a placeholder stands for, in a list with an entry for each number from one on. -/
def slot? {α : Type} (xs : List α) (t : Token) : Option α :=
  match t.kind with
  | .placeholder (n + 1) => xs[n]?
  | _ => none

/-! ## The tokens of values -/

/-- The minus sign in front of a number. -/
def signTokens : List Char → List Token
  | '-' :: _ => [⟨.punct '-', ['-']⟩]
  | _ => []

/-- The tokens of a value: a literal with the value inside, a number in parentheses, or a word. -/
def valueTokens (kind : ParameterKind) (value : List Char) : List Token :=
  match kind with
  | .text => [⟨.stringLiteral, '\'' :: value ++ ['\'']⟩]
  | .integer | .float =>
    ⟨.punct '(', ['(']⟩ :: signTokens value ++
      [⟨.number, ParameterKind.dropMinus value⟩, ⟨.punct ')', [')']⟩]
  | .boolean => [⟨.word, value⟩]

/-- The tokens in the place of a token of the statement. -/
def filledTokens (fs : Assignment) (t : Token) : List Token :=
  match slot? fs t with
  | some f => valueTokens f.1.kind f.2
  | none => [t]

/-! ## Statements whose views fit -/

/-- A percent sign, the name of a parameter and a percent sign, directly one behind the other. -/
def Spells (ps : List ViewParameter) (t : Token) (behind : List Piece) : Prop :=
  t.kind = .punct '%' ∧ ∃ w q more, behind = w :: q :: more ∧ w.blanks = [] ∧ w.token.kind = .word ∧
    q.blanks = [] ∧ q.token.kind = .punct '%' ∧
    ∃ p ∈ ps, p.reference.toList = '%' :: (w.token.text ++ ['%'])

def hasKind (ps : List ViewParameter) (kind : ParameterKind) (t : Token) : Prop :=
  ∃ p ∈ slot? ps t, p.kind = kind

/-- The token is a literal in single quotes, or will be one. -/
def EndsQuoted (ps : List ViewParameter) (t : Token) : Prop :=
  hasKind ps .text t ∨ t.kind = .stringLiteral ∧ t.text.getLast? = some '\''

/-- A single quote follows directly, or will. -/
def StartsQuoted (ps : List ViewParameter) (behind : List Piece) : Prop :=
  ∃ q ∈ behind.head?, q.blanks = [] ∧ (hasKind ps .text q.token ∨ q.token.text.head? = some '\'')

/-- A part of a word follows directly, or will. -/
def StartsWord (ps : List ViewParameter) (behind : List Piece) : Prop :=
  ∃ q ∈ behind.head?, q.blanks = [] ∧ (hasKind ps .boolean q.token ∨
    slot? ps q.token = none ∧ ∃ c ∈ q.token.text.head?, isWordPart c = true)

/-- No reference stands outside of the placeholders. -/
def Unspelled (ps : List ViewParameter) : List Piece → Prop
  | [] => True
  | p :: rest => ((p.token.isComment = true → ∀ q ∈ ps, hasInfix q.reference.toList p.token.text = false) ∧
      ¬Spells ps p.token rest) ∧ Unspelled ps rest

/-- No value runs into the token next to it. -/
def KeptApart (ps : List ViewParameter) : List Piece → Prop
  | [] => True
  | p :: rest => ((EndsQuoted ps p.token → ¬StartsQuoted ps rest) ∧
      (hasKind ps .boolean p.token → ¬StartsWord ps rest)) ∧ KeptApart ps rest

/-- Whatever values come in, the tokens of the statement stay as they are. -/
def Fitting (ps : List ViewParameter) (pieces : List Piece) : Prop :=
  Unspelled ps pieces ∧ KeptApart ps pieces

/-! ## Texts with other tokens in the place of some -/

/-- The text of a scan with each token written in a given way. -/
def render (g : Token → List Char) (s : Scan) : List Char :=
  s.pieces.flatMap (fun p => p.blanks ++ g p.token) ++ s.trailing

@[simp] theorem render_nil (g : Token → List Char) (trailing : List Char) :
    render g ⟨[], trailing⟩ = trailing := rfl

@[simp] theorem render_cons (g : Token → List Char) (p : Piece) (ps : List Piece)
    (trailing : List Char) :
    render g ⟨p :: ps, trailing⟩ = p.blanks ++ (g p.token ++ render g ⟨ps, trailing⟩) := by
  simp [render]

/-- Only what begins with a dollar sign is written in another way. -/
def Rewrites (g : Token → List Char) (ps : List Piece) : Prop :=
  ∀ p ∈ ps, g p.token = p.token.text ∨ p.token.text.head? = some '$' ∧ g p.token ≠ []

theorem head?_render {g : Token → List Char} {s : Scan} (hg : Rewrites g s.pieces)
    (hs : Readable s) (h : s.text.head? ≠ some '$') : (render g s).head? = s.text.head? := by
  obtain ⟨ps, trailing⟩ := s
  cases ps with
  | nil => rfl
  | cons p ps =>
    rw [text_cons] at h ⊢
    rw [render_cons]
    obtain ⟨-, hl, -⟩ := readable_cons.1 hs
    obtain ⟨c, cs, htext, -⟩ := hl.exists_cons
    cases hb : p.blanks with
    | cons b bs => rfl
    | nil =>
      rw [hb, List.nil_append, htext] at h
      rcases hg p (by simp) with he | ⟨hd, -⟩
      · rw [he, htext]
        rfl
      · rw [htext] at hd
        exact absurd hd h

/-! ## References in the text of a view -/

def viewText (ps : List ViewParameter) (t : Token) : List Char :=
  match slot? ps t with
  | some p => referenceText p
  | none => t.text

theorem kind_of_slot? {α : Type} {xs : List α} {t : Token} {x : α} (h : slot? xs t = some x) :
    ∃ n, t.kind = .placeholder (n + 1) ∧ xs[n]? = some x := by
  unfold slot? at h
  split at h
  · rename_i n hk
    exact ⟨n, hk, h⟩
  · cases h

theorem slot?_map {α β : Type} (f : α → β) (xs : List α) (t : Token) :
    slot? (xs.map f) t = (slot? xs t).map f := by
  unfold slot?
  split
  · exact List.getElem?_map
  · rfl

theorem head?_referenceText (p : ViewParameter) :
    ∃ c ∈ (referenceText p).head?, c = '\'' ∨ c = '(' ∨ c = '%' := by
  have hr : p.reference.toList.head? = some '%' := by
    change ("%" ++ p.name ++ "%").toList.head? = _
    simp
  unfold referenceText
  split <;> simp [hr]

theorem viewText_cases {R : Rules} (ps : List ViewParameter) {t : Token} {rest : List Char}
    (h : Lexeme R t rest) : viewText ps t = t.text ∨ t.text.head? = some '$' ∧
      ∃ c ∈ (viewText ps t).head?, c = '\'' ∨ c = '(' ∨ c = '%' := by
  unfold viewText
  cases hslot : slot? ps t with
  | none => exact .inl rfl
  | some p =>
    obtain ⟨n, hk, -⟩ := kind_of_slot? hslot
    exact .inr ⟨head?_of_placeholder h hk, head?_referenceText p⟩

theorem rewrites_viewText (ps : List ViewParameter) {s : Scan} (hs : Readable s) :
    Rewrites (viewText ps) s.pieces := by
  intro p hp
  obtain ⟨rest, hl⟩ := lexeme_of_readable hs hp
  refine (viewText_cases ps hl).imp_right fun ⟨hd, c, hc, _⟩ => ⟨hd, ?_⟩
  intro hnil
  simp [hnil] at hc

/-- The first character is one of the first token, where no blanks stand in front of it. -/
theorem exists_head_of_render {g : Token → List Char} {ps : List Piece} {trailing : List Char}
    (hs : Readable ⟨ps, trailing⟩) (hg : Rewrites g ps) {c : Char} {cs : List Char}
    (h : render g ⟨ps, trailing⟩ = c :: cs) (hc : isSpace c = false) :
    ∃ p rest, ps = p :: rest ∧ p.blanks = [] ∧ (g p.token).head? = some c ∧
      g p.token ++ render g ⟨rest, trailing⟩ = c :: cs := by
  cases ps with
  | nil =>
    have hb := readable_nil.1 hs c (by rw [← render_nil g trailing, h]; simp)
    rw [hc] at hb
    cases hb
  | cons p rest =>
    obtain ⟨hb, hl, -⟩ := readable_cons.1 hs
    rw [render_cons] at h
    cases hblanks : p.blanks with
    | cons b bs =>
      rw [hblanks, List.cons_append, List.cons.injEq] at h
      have hsp := hb b (by simp [hblanks])
      rw [h.1, hc] at hsp
      cases hsp
    | nil =>
      rw [hblanks, List.nil_append] at h
      refine ⟨p, rest, rfl, hblanks, ?_, h⟩
      have hne : g p.token ≠ [] := by
        rcases hg p (by simp) with he | ⟨-, hne⟩
        · rw [he]
          exact hl.text_ne_nil
        · exact hne
      obtain ⟨d, ds, he⟩ := List.exists_cons_of_ne_nil hne
      rw [he, List.cons_append, List.cons.injEq] at h
      rw [he, h.1]
      rfl

theorem isWordPart_of_isDigit {c : Char} (h : c.isDigit = true) : isWordPart c = true := by
  simp [isWordPart, h]

/-- A reference behind a percent sign is a word and another percent sign. -/
theorem spells_of_reference (ps : List ViewParameter) {behind : List Piece} {trailing : List Char}
    (hs : Readable ⟨behind, trailing⟩) {n : Nat}
    (hp : referenceTo n <+: '%' :: render (viewText ps) ⟨behind, trailing⟩) :
    ∃ w q more, behind = w :: q :: more ∧ w.blanks = [] ∧ w.token.kind = .word ∧
      q.blanks = [] ∧ q.token = ⟨.punct '%', ['%']⟩ ∧ '%' :: (w.token.text ++ ['%']) = referenceTo n := by
  obtain ⟨more, he⟩ := hp
  simp only [referenceTo, List.cons_append, List.append_assoc, List.nil_append, List.cons.injEq,
    true_and] at he
  have hg := rewrites_viewText ps hs
  obtain ⟨w, rest, rfl, hblanks, hhead, hw⟩ := exists_head_of_render hs hg he.symm rfl
  obtain ⟨-, hl, hrest⟩ := readable_cons.1 hs
  -- The word is no placeholder, whose text would begin with another character.
  have hview : viewText ps w.token = w.token.text := by
    rcases viewText_cases ps hl with hv | ⟨-, c, hc, hcs⟩
    · exact hv
    · rw [hhead, Option.mem_def, Option.some.injEq] at hc
      subst hc
      exact absurd hcs (by decide)
  rw [hview] at hhead hw
  obtain ⟨cs, htext⟩ : ∃ cs, w.token.text = 'p' :: cs := ⟨_, eq_cons_of_head? (by simp [hhead])⟩
  obtain ⟨hkind, hparts, hstop⟩ := word_of_head hl htext rfl (by decide)
  have hdollar : (Scan.text ⟨rest, trailing⟩).head? ≠ some '$' := fun hd =>
    absurd (hstop '$' hd) (by decide)
  have hgrest : Rewrites (viewText ps) rest := fun p hp => hg p (List.mem_cons_of_mem w hp)
  have hsame := head?_render hgrest hrest hdollar
  rw [htext, List.cons_append, List.cons.injEq] at hw
  have hdigits : cs = Text.ofNat n := by
    have htake := congrArg (List.takeWhile isWordPart) hw.2
    rw [takeWhile_exact hparts (by rwa [hsame])] at htake
    rw [htake]
    exact takeWhile_exact (fun c hc => isWordPart_of_isDigit (Text.isDigit_ofNat c hc)) (by simp; decide)
  rw [hdigits] at hw
  have hpercent := List.append_cancel_left hw.2
  obtain ⟨q, qs, rfl, hqblanks, hqhead, -⟩ := exists_head_of_render hrest hgrest hpercent rfl
  obtain ⟨-, hql, -⟩ := readable_cons.1 hrest
  refine ⟨w, q, qs, rfl, hblanks, hkind, hqblanks, percent_of_head hql ?_, ?_⟩
  · rw [hpercent, text_cons, hqblanks, List.nil_append, List.head?_append] at hsame
    obtain ⟨c, ds, hqtext, -⟩ := hql.exists_cons
    rw [hqtext] at hsame ⊢
    exact hsame.symm
  · rw [htext, hdigits]
    rfl

end SpatialQuery.View
