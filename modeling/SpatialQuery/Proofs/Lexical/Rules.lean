import SpatialQuery.Token.Scan

/-!
The lexical rules of SQL text, as a relation between a text and its tokens. The relation says which
token stands at the front of a text; `Lexed` says how a whole text falls into tokens and blanks.
-/

namespace SpatialQuery.Lexical

theorem isDigit_iff {c : Char} : c.isDigit = true ↔ 48 ≤ c.toNat ∧ c.toNat ≤ 57 :=
  Char.isDigit_iff_toNat

theorem isAlpha_iff {c : Char} :
    c.isAlpha = true ↔ 65 ≤ c.toNat ∧ c.toNat ≤ 90 ∨ 97 ≤ c.toNat ∧ c.toNat ≤ 122 := by
  change (decide (65 ≤ c.val ∧ c.val ≤ 90) || (decide (97 ≤ c.val) && decide (c.val ≤ 122))) = true ↔ _
  simp only [Bool.or_eq_true, Bool.and_eq_true, decide_eq_true_eq, UInt32.le_iff_toNat_le]
  rfl

theorem isWordStart_of_isDigit {c : Char} (h : c.isDigit = true) : Token.isWordStart c = false := by
  rw [Bool.eq_false_iff]
  intro hw
  simp only [Token.isWordStart, Bool.or_eq_true, beq_iff_eq, decide_eq_true_eq, isAlpha_iff] at hw
  rw [isDigit_iff] at h
  rcases hw with (rfl | hw) | hw
  · exact absurd h (by decide)
  · omega
  · omega

/-- Where two readers of SQL text may differ: the characters that end a line, and the letters of the
tags between dollar signs. -/
structure Rules where
  endsLine : Char → Bool
  isTagLetter : Char → Bool
  endsLine_minus : endsLine '-' = false := by rfl
  isTagLetter_dollar : isTagLetter '$' = false := by rfl
  isTagLetter_digit : ∀ c : Char, c.isDigit = true → isTagLetter c = false

/-- PostgreSQL ends a line at a newline or a carriage return, and lets a tag begin as a word does. -/
def Rules.postgres : Rules where
  endsLine c := c == '\n' || c == '\r'
  isTagLetter := Token.isWordStart
  isTagLetter_digit _ := isWordStart_of_isDigit

/-- The rules that `Scan.ofChars` follows. -/
def Rules.scanned : Rules where
  endsLine c := c == '\n'
  isTagLetter c := c == '_' || c.isAlpha
  isTagLetter_digit _ h := (Bool.or_eq_false_iff.1 (isWordStart_of_isDigit h)).1

/-- Digits behind the first letter of a tag are part of it. -/
def Rules.isTagPart (R : Rules) (c : Char) : Bool :=
  R.isTagLetter c || c.isDigit

/-- A tag is empty, or a letter and then letters and digits. -/
def Rules.IsTag (R : Rules) (tag : List Char) : Prop :=
  (∀ c ∈ tag.head?, R.isTagLetter c = true) ∧ ∀ c ∈ tag, R.isTagPart c = true

/-! ## Constructs with a closing mark -/

/-- The inside of a quoted text: a quote is doubled, and where backslashes escape, a backslash takes
the next character with it. -/
inductive Quoted (q : Char) (escapes : Bool) : List Char → Prop
  | nil : Quoted q escapes []
  | doubled {cs : List Char} : Quoted q escapes cs → Quoted q escapes (q :: q :: cs)
  | escaped {c : Char} {cs : List Char} :
      escapes = true → Quoted q escapes cs → Quoted q escapes ('\\' :: c :: cs)
  | plain {c : Char} {cs : List Char} :
      c ≠ q → ¬(escapes = true ∧ c = '\\') → Quoted q escapes cs → Quoted q escapes (c :: cs)

/-- The rest of a comment inside of which `depth` more comments are open, up to its closing mark. -/
inductive CommentRest : Nat → List Char → Prop
  | close : CommentRest 0 ['*', '/']
  | leave {depth : Nat} {cs : List Char} :
      CommentRest depth cs → CommentRest (depth + 1) ('*' :: '/' :: cs)
  | enter {depth : Nat} {cs : List Char} :
      CommentRest (depth + 1) cs → CommentRest depth ('/' :: '*' :: cs)
  | other {depth : Nat} {c : Char} {cs : List Char} :
      ¬['/', '*'] <+: c :: cs → ¬['*', '/'] <+: c :: cs → CommentRest depth cs →
        CommentRest depth (c :: cs)

def delimiter (tag : List Char) : List Char :=
  '$' :: tag ++ ['$']

/-- What opens a construct with a closing mark. -/
inductive Opening where
  | string
  /-- `E'` or `e'`. -/
  | escapeString (e : Char)
  | identifier
  | comment
  | tagged (tag : List Char)

namespace Opening

def text : Opening → List Char
  | string => ['\'']
  | escapeString e => [e, '\'']
  | identifier => ['"']
  | comment => ['/', '*']
  | tagged tag => delimiter tag

def kind : Opening → Token.Kind
  | string | escapeString _ | tagged _ => .stringLiteral
  | identifier => .quotedIdentifier
  | comment => .blockComment

def construct : Opening → Construct
  | string | escapeString _ => .stringLiteral
  | identifier => .quotedIdentifier
  | comment => .blockComment
  | tagged _ => .dollarString

def Allowed (R : Rules) : Opening → Prop
  | escapeString e => e = 'E' ∨ e = 'e'
  | tagged tag => R.IsTag tag
  | _ => True

/-- A quoted text ends at its first quote that is not doubled. -/
def ClosesQuote (q : Char) (escapes : Bool) (body rest : List Char) : Prop :=
  ∃ cs, Quoted q escapes cs ∧ body = cs ++ [q] ∧ rest.head? ≠ some q

/-- A tagged text ends at the first repetition of its delimiter. -/
def ClosesTagged (tag body : List Char) : Prop :=
  ∃ cs, body = cs ++ delimiter tag ∧ ∀ i < cs.length, ¬delimiter tag <+: body.drop i

/-- The construct is closed at the end of `body`, before `rest`. -/
def Closes : Opening → List Char → List Char → Prop
  | string, body, rest => ClosesQuote '\'' false body rest
  | escapeString _, body, rest => ClosesQuote '\'' true body rest
  | identifier, body, rest => ClosesQuote '"' false body rest
  | comment, body, _ => CommentRest 0 body
  | tagged tag, body, _ => ClosesTagged tag body

end Opening

/-! ## Numerals -/

/-- Underscores stand between the digits of a numeral. -/
def isFigure (c : Char) : Bool :=
  c.isDigit || c == '_'

/-- Digits and underscores, the first one a digit. -/
def IsFigures (cs : List Char) : Prop :=
  (∃ c ∈ cs.head?, c.isDigit = true) ∧ ∀ c ∈ cs, isFigure c = true

inductive Mantissa : List Char → Prop
  | whole {cs : List Char} : IsFigures cs → Mantissa cs
  | fraction {cs ds : List Char} :
      IsFigures cs → (∀ c ∈ ds, isFigure c = true) → Mantissa (cs ++ '.' :: ds)
  | point {ds : List Char} : IsFigures ds → Mantissa ('.' :: ds)

inductive ExponentPart : List Char → Prop
  | none : ExponentPart []
  | mark {e : Char} {sign ds : List Char} :
      (e = 'e' ∨ e = 'E') → (sign = [] ∨ sign = ['+'] ∨ sign = ['-']) → IsFigures ds →
        ExponentPart (e :: (sign ++ ds))

def Numeral (cs : List Char) : Prop :=
  ∃ m x, Mantissa m ∧ ExponentPart x ∧ cs = m ++ x

/-! ## Tokens -/

/-- A construct or a line comment begins here. -/
def Begins (R : Rules) (cs : List Char) : Prop :=
  ['-', '-'] <+: cs ∨ ∃ o : Opening, o.Allowed R ∧ o.text <+: cs

/-- The token that the rules read at the front of a text, and the text behind it. -/
inductive Lexeme (R : Rules) : Token → List Char → Prop
  | closed {o : Opening} {body rest : List Char} :
      o.Allowed R → o.Closes body rest → Lexeme R ⟨o.kind, o.text ++ body⟩ rest
  /-- No way to go on closes the construct. -/
  | unclosed {o : Opening} {cs : List Char} :
      o.Allowed R → (∀ body rest, o.Closes body rest → body ++ rest ≠ cs) →
        Lexeme R ⟨.unclosed o.construct, o.text ++ cs⟩ []
  | lineComment {cs rest : List Char} :
      (∀ c ∈ cs, R.endsLine c = false) → (∀ c ∈ rest.head?, R.endsLine c = true) →
        Lexeme R ⟨.lineComment, '-' :: '-' :: cs⟩ rest
  | placeholder {ds rest : List Char} :
      ds ≠ [] → (∀ c ∈ ds, c.isDigit = true) → (∀ c ∈ rest.head?, c.isDigit = false) →
        Lexeme R ⟨.placeholder (Token.placeholderIndex ds), '$' :: ds⟩ rest
  /-- The longest numeral. -/
  | number {cs rest : List Char} :
      Numeral cs → (∀ ds, Numeral ds → ds <+: cs ++ rest → ds.length ≤ cs.length) →
        Lexeme R ⟨.number, cs⟩ rest
  | word {c : Char} {cs rest : List Char} :
      Token.isWordStart c = true → (∀ d ∈ cs, Token.isWordPart d = true) →
        (∀ d ∈ rest.head?, Token.isWordPart d = false) → ¬Begins R (c :: cs ++ rest) →
        Lexeme R ⟨.word, c :: cs⟩ rest
  | punct {c : Char} {rest : List Char} :
      Token.isSpace c = false → Token.isWordStart c = false →
        (∀ ds, Numeral ds → ¬ds <+: c :: rest) → (c = '$' → ∀ d ∈ rest.head?, d.isDigit = false) →
        ¬Begins R (c :: rest) → Lexeme R ⟨.punct c, [c]⟩ rest

/-- A token that is no code: a comment, a literal or a quoted identifier, closed or not. -/
def isEnclosed (t : Token) : Bool :=
  match t.kind with
  | .word | .number | .placeholder _ | .punct _ => false
  | _ => true

/-- A text falls into pieces, each of them blanks and a token, and blanks at the end. -/
inductive Lexed (R : Rules) : List Char → Scan → Prop
  | nil {blanks : List Char} :
      (∀ c ∈ blanks, Token.isSpace c = true) → Lexed R blanks ⟨[], blanks⟩
  | cons {blanks rest : List Char} {t : Token} {s : Scan} :
      (∀ c ∈ blanks, Token.isSpace c = true) → Lexeme R t rest → Lexed R rest s →
        Lexed R (blanks ++ (t.text ++ rest)) ⟨⟨blanks, t⟩ :: s.pieces, s.trailing⟩

end SpatialQuery.Lexical
