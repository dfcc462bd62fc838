import SpatialQuery.Token

/-!
Scanning SQL text into tokens. The scan keeps every character: the blanks before each token, the
token itself, and the blanks at the end. `Scan.text_scan` says that these give the text back.

A token is read by its first characters. Comments in `/* */` nest; a string or an identifier ends at
the first quote that is not doubled; after `E'` a backslash takes the next character with it; a text
opened by `$tag$` ends at the next `$tag$`.
-/

namespace SpatialQuery

namespace Token

/-- Characters between tokens. -/
def isSpace (c : Char) : Bool :=
  c == ' ' || c == '\t' || c == '\n' || c == '\r' || c == '\x0c'

def isWordStart (c : Char) : Bool :=
  c == '_' || c.isAlpha || 0x80 ≤ c.toNat

def isWordPart (c : Char) : Bool :=
  isWordStart c || c.isDigit || c == '$'

def isTagPart (c : Char) : Bool :=
  c == '_' || c.isAlpha || c.isDigit

/-- Puts characters in front of the first of two parts. -/
def after (cs : List Char) (r : List Char × List Char) : List Char × List Char :=
  (cs ++ r.1, r.2)

/-- Splits after the first closing quote. A doubled quote closes nothing; nor does, where backslashes
escape, a character after a backslash. -/
def closeQuote? (q : Char) (escapes : Bool) : List Char → Option (List Char × List Char)
  | [] => none
  | [c] => if c == q then some ([c], []) else none
  | c :: d :: cs =>
    if escapes && c == '\\' then (closeQuote? q escapes cs).map (after [c, d])
    else if c == q then
      if d == q then (closeQuote? q escapes cs).map (after [c, d]) else some ([c], d :: cs)
    else (closeQuote? q escapes (d :: cs)).map (after [c])

/-- Splits after the mark that closes a comment with `depth` open comments inside it. -/
def closeComment? : Nat → List Char → Option (List Char × List Char)
  | _, [] => none
  | _, [_] => none
  | depth, c :: d :: cs =>
    if c == '/' && d == '*' then (closeComment? (depth + 1) cs).map (after [c, d])
    else if c == '*' && d == '/' then
      match depth with
      | 0 => some ([c, d], cs)
      | depth + 1 => (closeComment? depth cs).map (after [c, d])
    else (closeComment? depth (d :: cs)).map (after [c])

/-- Splits after the first occurrence of a delimiter. -/
def closeDelimiter? (delimiter : List Char) : List Char → Option (List Char × List Char)
  | [] => none
  | c :: cs =>
    if delimiter.isPrefixOf (c :: cs) then some (delimiter, (c :: cs).drop delimiter.length)
    else (closeDelimiter? delimiter cs).map (after [c])

/-- A digit, or a sign and a digit. -/
def startsExponent : List Char → Bool
  | c :: cs => c.isDigit || ((c == '+' || c == '-') && cs.head?.any Char.isDigit)
  | [] => false

/-- Splits after a number: digits and underscores, at most one point, which stands before the
exponent, and at most one exponent. The flags say that a point and an exponent mark have been read,
and that a sign may follow. -/
def splitNumber (point exponent sign : Bool) : List Char → List Char × List Char
  | [] => ([], [])
  | c :: cs =>
    if c.isDigit || c == '_' || (sign && (c == '+' || c == '-')) then
      after [c] (splitNumber point exponent false cs)
    else if c == '.' && !point && !exponent then
      after [c] (splitNumber true exponent false cs)
    else if (c == 'e' || c == 'E') && !exponent && startsExponent cs then
      after [c] (splitNumber point true true cs)
    else ([], c :: cs)

/-- The largest index of a placeholder; longer numerals read as this one. -/
def maxPlaceholder : Nat := UInt64.size - 1

def placeholderIndex (digits : List Char) : Nat :=
  min (digits.foldl (fun n c => 10 * n + (c.toNat - '0'.toNat)) 0) maxPlaceholder

/-- The token of a construct that was opened, or an unclosed token up to the end of the text. -/
def ofClosing (kind : Kind) (what : Construct) (opening cs : List Char) :
    Option (List Char × List Char) → Token × List Char
  | some (body, rest) => (⟨kind, opening ++ body⟩, rest)
  | none => (⟨.unclosed what, opening ++ cs⟩, [])

/-- What a dollar sign without a numeral begins: a text between two equal tags, or nothing. -/
def readTagged (cs : List Char) : Token × List Char :=
  match cs.dropWhile isTagPart with
  | '$' :: rest =>
    ofClosing .stringLiteral .dollarString ('$' :: cs.takeWhile isTagPart ++ ['$']) rest
      (closeDelimiter? ('$' :: cs.takeWhile isTagPart ++ ['$']) rest)
  | _ => (⟨.punct '$', ['$']⟩, cs)

/-- The token of a dollar sign: a placeholder if a numeral follows. -/
def readDollar (cs : List Char) : Token × List Char :=
  if (cs.takeWhile Char.isDigit).isEmpty then readTagged cs
  else
    (⟨.placeholder (placeholderIndex (cs.takeWhile Char.isDigit)), '$' :: cs.takeWhile Char.isDigit⟩,
      cs.dropWhile Char.isDigit)

/-- The token that begins with the character `c`, followed by `cs`, and the text behind it. -/
def read (c : Char) (cs : List Char) : Token × List Char :=
  if c == '-' && cs.head? == some '-' then
    (⟨.lineComment, c :: cs.takeWhile (· != '\n')⟩, cs.dropWhile (· != '\n'))
  else if c == '/' && cs.head? == some '*' then
    ofClosing .blockComment .blockComment [c, '*'] (cs.drop 1) (closeComment? 0 (cs.drop 1))
  else if c == '\'' then
    ofClosing .stringLiteral .stringLiteral [c] cs (closeQuote? '\'' false cs)
  -- In front of the words, which may begin with this letter too.
  else if (c == 'E' || c == 'e') && cs.head? == some '\'' then
    ofClosing .stringLiteral .stringLiteral [c, '\''] (cs.drop 1) (closeQuote? '\'' true (cs.drop 1))
  else if c == '"' then
    ofClosing .quotedIdentifier .quotedIdentifier [c] cs (closeQuote? '"' false cs)
  else if c == '$' then
    readDollar cs
  else if c.isDigit || (c == '.' && cs.head?.any Char.isDigit) then
    (⟨.number, (splitNumber false false false (c :: cs)).1⟩, (splitNumber false false false (c :: cs)).2)
  else if isWordStart c then
    (⟨.word, c :: cs.takeWhile isWordPart⟩, cs.dropWhile isWordPart)
  else
    (⟨.punct c, [c]⟩, cs)

@[simp] theorem after_append (cs : List Char) (r : List Char × List Char) :
    (after cs r).1 ++ (after cs r).2 = cs ++ (r.1 ++ r.2) := by
  simp [after]

theorem append_of_map_after {cs ds : List Char} {o : Option (List Char × List Char)}
    {r : List Char × List Char} (h : o.map (after cs) = some r)
    (ho : ∀ r', o = some r' → r'.1 ++ r'.2 = ds) : r.1 ++ r.2 = cs ++ ds := by
  obtain ⟨r', hr', rfl⟩ := Option.map_eq_some_iff.1 h
  rw [after_append, ho r' hr']

theorem closeQuote?_append {q : Char} {escapes : Bool} {cs : List Char}
    {r : List Char × List Char} (h : closeQuote? q escapes cs = some r) : r.1 ++ r.2 = cs := by
  fun_induction closeQuote? q escapes cs generalizing r with
  | case1 => simp at h
  | case2 c hc => simp only [Option.some.injEq] at h; subst h; rfl
  | case3 => simp at h
  | case4 c d cs _ ih => exact append_of_map_after h fun _ => ih
  | case5 c d cs _ _ _ ih => exact append_of_map_after h fun _ => ih
  | case6 => simp only [Option.some.injEq] at h; subst h; rfl
  | case7 c d cs _ _ ih => exact append_of_map_after h fun _ => ih

theorem closeComment?_append {depth : Nat} {cs : List Char} {r : List Char × List Char}
    (h : closeComment? depth cs = some r) : r.1 ++ r.2 = cs := by
  fun_induction closeComment? depth cs generalizing r with
  | case1 => simp at h
  | case2 => simp at h
  | case3 depth c d cs _ ih => exact append_of_map_after h fun _ => ih
  | case4 => simp only [Option.some.injEq] at h; subst h; rfl
  | case5 c d cs _ _ depth ih => exact append_of_map_after h fun _ => ih
  | case6 depth c d cs _ _ ih => exact append_of_map_after h fun _ => ih

theorem closeDelimiter?_append {delimiter cs : List Char} {r : List Char × List Char}
    (h : closeDelimiter? delimiter cs = some r) : r.1 ++ r.2 = cs := by
  fun_induction closeDelimiter? delimiter cs generalizing r with
  | case1 => simp at h
  | case2 c cs hp =>
    simp only [Option.some.injEq] at h
    subst h
    obtain ⟨t, ht⟩ := List.isPrefixOf_iff_prefix.1 hp
    simp [← ht]
  | case3 c cs _ ih => exact append_of_map_after h fun _ => ih

theorem splitNumber_append (point exponent sign : Bool) (cs : List Char) :
    (splitNumber point exponent sign cs).1 ++ (splitNumber point exponent sign cs).2 = cs := by
  fun_induction splitNumber point exponent sign cs <;> simp_all

theorem ofClosing_append {kind : Kind} {what : Construct} {opening cs : List Char}
    {o : Option (List Char × List Char)} (h : ∀ r, o = some r → r.1 ++ r.2 = cs) :
    (ofClosing kind what opening cs o).1.text ++ (ofClosing kind what opening cs o).2 =
      opening ++ cs := by
  cases o with
  | none => simp [ofClosing]
  | some r => simp [ofClosing, h r rfl]

theorem eq_cons_of_head? {c : Char} {cs : List Char} (h : (cs.head? == some c) = true) :
    cs = c :: cs.drop 1 := by
  cases cs <;> simp_all

theorem readTagged_append (cs : List Char) :
    (readTagged cs).1.text ++ (readTagged cs).2 = '$' :: cs := by
  unfold readTagged
  split
  · rename_i rest h
    rw [ofClosing_append fun _ => closeDelimiter?_append]
    simp [← h, List.takeWhile_append_dropWhile]
  · rfl

theorem readDollar_append (cs : List Char) :
    (readDollar cs).1.text ++ (readDollar cs).2 = '$' :: cs := by
  unfold readDollar
  split
  · exact readTagged_append cs
  · simp [List.takeWhile_append_dropWhile]

/-- Reading a token takes characters from the front of the text and keeps the others. -/
theorem read_append (c : Char) (cs : List Char) :
    (read c cs).1.text ++ (read c cs).2 = c :: cs := by
  unfold read
  split
  · simp [List.takeWhile_append_dropWhile]
  split
  · rename_i h
    simp only [Bool.and_eq_true] at h
    rw [ofClosing_append fun _ => closeComment?_append]
    conv => rhs; rw [eq_cons_of_head? h.2]
    rfl
  split
  · exact ofClosing_append fun _ => closeQuote?_append
  split
  · rename_i h
    simp only [Bool.and_eq_true] at h
    rw [ofClosing_append fun _ => closeQuote?_append]
    conv => rhs; rw [eq_cons_of_head? h.2]
    rfl
  split
  · exact ofClosing_append fun _ => closeQuote?_append
  split
  · rename_i h
    rw [eq_of_beq h]
    exact readDollar_append cs
  split
  · exact splitNumber_append false false false (c :: cs)
  split
  · simp [List.takeWhile_append_dropWhile]
  · rfl

theorem ofClosing_text_ne_nil {kind : Kind} {what : Construct} {opening cs : List Char}
    (h : opening ≠ []) (o : Option (List Char × List Char)) :
    (ofClosing kind what opening cs o).1.text ≠ [] := by
  cases o <;> simp [ofClosing, h]

theorem splitNumber_ne_nil {c : Char} (h : c.isDigit = true ∨ c = '.') (cs : List Char) :
    (splitNumber false false false (c :: cs)).1 ≠ [] := by
  rcases h with h | rfl
  · simp [splitNumber, h, after]
  · simp [splitNumber, after, show ('.' : Char).isDigit = false from rfl]

theorem readDollar_text_ne_nil (cs : List Char) : (readDollar cs).1.text ≠ [] := by
  unfold readDollar readTagged
  split
  · split
    · exact ofClosing_text_ne_nil (by simp) _
    · simp
  · simp

theorem read_text_ne_nil (c : Char) (cs : List Char) : (read c cs).1.text ≠ [] := by
  unfold read
  split
  · simp
  split
  · exact ofClosing_text_ne_nil (by simp) _
  split
  · exact ofClosing_text_ne_nil (by simp) _
  split
  · exact ofClosing_text_ne_nil (by simp) _
  split
  · exact ofClosing_text_ne_nil (by simp) _
  split
  · exact readDollar_text_ne_nil cs
  split
  · rename_i h
    simp only [Bool.or_eq_true, Bool.and_eq_true, beq_iff_eq] at h
    exact splitNumber_ne_nil (h.imp_right And.left) cs
  split <;> simp

theorem length_read_le (c : Char) (cs : List Char) : (read c cs).2.length ≤ cs.length := by
  have h := congrArg List.length (read_append c cs)
  have := List.length_pos_iff.2 (read_text_ne_nil c cs)
  simp only [List.length_append, List.length_cons] at h
  omega

end Token

/-- A token and the blanks in front of it. -/
structure Piece where
  blanks : List Char
  token : Token
  deriving DecidableEq, Repr

def Piece.text (p : Piece) : List Char :=
  p.blanks ++ p.token.text

/-- The tokens of a text, and the blanks behind the last one. -/
structure Scan where
  pieces : List Piece
  trailing : List Char
  deriving DecidableEq, Repr

namespace Scan

/-- The text that was scanned. -/
def text (s : Scan) : List Char :=
  s.pieces.flatMap Piece.text ++ s.trailing

def tokens (s : Scan) : List Token :=
  s.pieces.map Piece.token

/-- Reads tokens up to the end of the text. -/
def ofChars (cs : List Char) : Scan :=
  match _h : cs.dropWhile Token.isSpace with
  | [] => ⟨[], cs⟩
  | c :: rest =>
    let s := ofChars (Token.read c rest).2
    ⟨⟨cs.takeWhile Token.isSpace, (Token.read c rest).1⟩ :: s.pieces, s.trailing⟩
termination_by cs.length
decreasing_by
  have := Token.length_read_le c rest
  have := (List.dropWhile_suffix Token.isSpace (l := cs)).length_le
  simp only [_h, List.length_cons] at this
  omega

def ofString (s : String) : Scan :=
  ofChars s.toList

theorem text_ofChars (cs : List Char) : (ofChars cs).text = cs := by
  fun_induction ofChars cs with
  | case1 => rfl
  | case2 cs c rest h s ih =>
    simp only [text, List.flatMap_cons, Piece.text, List.append_assoc] at ih ⊢
    rw [ih, Token.read_append, ← h, List.takeWhile_append_dropWhile]

/-- The size of a text in UTF-8. -/
def byteSize (cs : List Char) : Nat :=
  cs.foldr (fun c n => c.utf8Size + n) 0

/-- The byte offsets at which the pieces' tokens begin and end, when the first piece begins at
`offset`. -/
def spans (offset : Nat) : List Piece → List (Nat × Nat)
  | [] => []
  | p :: ps =>
    let start := offset + byteSize p.blanks
    let stop := start + byteSize p.token.text
    (start, stop) :: spans stop ps

/-- The pieces with the byte offsets of their tokens. -/
def located (s : Scan) : List (Piece × Nat) :=
  s.pieces.zip ((spans 0 s.pieces).map Prod.fst)

/-- The construct that is not closed, and where it begins. -/
def unclosed? (s : Scan) : Option (Construct × Nat) :=
  s.located.findSome? fun (p, start) =>
    match p.token.kind with
    | .unclosed what => some (what, start)
    | _ => none

end Scan

end SpatialQuery
