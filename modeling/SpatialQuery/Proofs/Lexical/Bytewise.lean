import SpatialQuery.Proofs.Text.Slices

/-!
Scanning a text by the bytes of its encoding. The position moves on by one byte or by two, also into the middle of a
character and past the end; the text of a token is the slice between two positions. There is no result where a slice
would be cut outside of the text or inside of a character, where a comment would be closed that was never opened, and
where the scan would not move on (`scan?`).
-/

namespace SpatialQuery.Bytewise

open Token Text

/-- The byte at a position, as the character with its number. -/
def byteAt? (s : String) (pos : Nat) : Option Char :=
  (Bytes.ofString s)[pos]?.map Char.ofUInt8

theorem lt_of_byteAt? {s : String} {pos : Nat} {c : Char} (h : byteAt? s pos = some c) : pos < s.utf8ByteSize := by
  obtain ⟨b, hb, -⟩ := Option.map_eq_some_iff.1 h
  exact (List.getElem?_eq_some_iff.1 hb).1

/-! ## Ends of tokens -/

/-- The first position whose byte does not have the property. -/
def skipWhile (p : Char → Bool) (s : String) (pos : Nat) : Nat :=
  match _h : byteAt? s pos with
  | none => pos
  | some c => if p c then skipWhile p s (pos + 1) else pos
termination_by s.utf8ByteSize - pos
decreasing_by
  have := lt_of_byteAt? _h
  omega

theorem skipWhile_def (p : Char → Bool) (s : String) (pos : Nat) :
    skipWhile p s pos =
      match byteAt? s pos with
      | none => pos
      | some c => if p c then skipWhile p s (pos + 1) else pos := by
  conv => lhs; rw [skipWhile]
  split
  · rename_i h
    rw [h]
  · rename_i c h
    rw [h]

/-- The position behind the closing quote. A backslash that escapes takes the next byte with it. -/
def quoteEnd? (q : Char) (escapes : Bool) (s : String) (pos : Nat) : Option Nat :=
  match _h : byteAt? s pos with
  | none => none
  | some c =>
    if escapes && c == '\\' then quoteEnd? q escapes s (pos + 2)
    else if c == q then
      if byteAt? s (pos + 1) == some q then quoteEnd? q escapes s (pos + 2) else some (pos + 1)
    else quoteEnd? q escapes s (pos + 1)
termination_by s.utf8ByteSize - pos
decreasing_by
  all_goals
    have := lt_of_byteAt? _h
    omega

theorem quoteEnd?_def (q : Char) (escapes : Bool) (s : String) (pos : Nat) :
    quoteEnd? q escapes s pos =
      match byteAt? s pos with
      | none => none
      | some c =>
        if escapes && c == '\\' then quoteEnd? q escapes s (pos + 2)
        else if c == q then
          if byteAt? s (pos + 1) == some q then quoteEnd? q escapes s (pos + 2) else some (pos + 1)
        else quoteEnd? q escapes s (pos + 1) := by
  conv => lhs; rw [quoteEnd?]
  split
  · rename_i h
    rw [h]
  · rename_i c h
    rw [h]

/-- The position behind the mark that closes the last of `depth` open comments, if there is one. No comment may be
closed where none is open. -/
def commentEnd? (s : String) (depth pos : Nat) : Option (Option Nat) :=
  match _h : byteAt? s pos with
  | none => some none
  | some c =>
    if c == '/' && byteAt? s (pos + 1) == some '*' then commentEnd? s (depth + 1) (pos + 2)
    else if c == '*' && byteAt? s (pos + 1) == some '/' then
      match depth with
      | 0 => none
      | 1 => some (some (pos + 2))
      | depth + 2 => commentEnd? s (depth + 1) (pos + 2)
    else commentEnd? s depth (pos + 1)
termination_by s.utf8ByteSize - pos
decreasing_by
  all_goals
    have := lt_of_byteAt? _h
    omega

theorem commentEnd?_def (s : String) (depth pos : Nat) :
    commentEnd? s depth pos =
      match byteAt? s pos with
      | none => some none
      | some c =>
        if c == '/' && byteAt? s (pos + 1) == some '*' then commentEnd? s (depth + 1) (pos + 2)
        else if c == '*' && byteAt? s (pos + 1) == some '/' then
          match depth with
          | 0 => none
          | 1 => some (some (pos + 2))
          | depth + 2 => commentEnd? s (depth + 1) (pos + 2)
        else commentEnd? s depth (pos + 1) := by
  conv => lhs; rw [commentEnd?.eq_def]
  split
  · rename_i h
    rw [h]
  · rename_i c h
    rw [h]

def isSign (c : Char) : Bool :=
  c == '+' || c == '-'

/-- The number of bytes of a sign. -/
def signWidth (s : String) (pos : Nat) : Nat :=
  if (byteAt? s pos).any isSign then 1 else 0

/-- The position behind a number. The flags say that a point and an exponent have been passed. -/
def numberEnd (s : String) (point exponent : Bool) (pos : Nat) : Nat :=
  match _h : byteAt? s pos with
  | none => pos
  | some c =>
    if c.isDigit || c == '_' then numberEnd s point exponent (pos + 1)
    else if c == '.' && !point && !exponent then numberEnd s true exponent (pos + 1)
    else if (c == 'e' || c == 'E') && !exponent &&
        (byteAt? s (pos + 1 + signWidth s (pos + 1))).any Char.isDigit then
      numberEnd s point true (pos + 1 + signWidth s (pos + 1))
    else pos
termination_by s.utf8ByteSize - pos
decreasing_by
  all_goals
    have := lt_of_byteAt? _h
    omega

theorem numberEnd_def (s : String) (point exponent : Bool) (pos : Nat) :
    numberEnd s point exponent pos =
      match byteAt? s pos with
      | none => pos
      | some c =>
        if c.isDigit || c == '_' then numberEnd s point exponent (pos + 1)
        else if c == '.' && !point && !exponent then numberEnd s true exponent (pos + 1)
        else if (c == 'e' || c == 'E') && !exponent &&
            (byteAt? s (pos + 1 + signWidth s (pos + 1))).any Char.isDigit then
          numberEnd s point true (pos + 1 + signWidth s (pos + 1))
        else pos := by
  conv => lhs; rw [numberEnd]
  split
  · rename_i h
    rw [h]
  · rename_i c h
    rw [h]

/-- The number of bytes in front of the first occurrence of others. -/
def find? (part : Bytes) : Bytes → Option Nat
  | [] => none
  | b :: bs => if part.isPrefixOf (b :: bs) then some 0 else (find? part bs).map (· + 1)

/-- The kind of a construct and the position behind it; without a closing mark it runs to the end of the text. -/
def closing (kind : Kind) (what : Construct) (s : String) : Option Nat → Kind × Nat
  | some stop => (kind, stop)
  | none => (.unclosed what, s.utf8ByteSize)

/-- A text between two equal tags, or a dollar sign alone. -/
def tagged? (s : String) (pos : Nat) : Option (Kind × Nat) :=
  let tagEnd := skipWhile isTagPart s (pos + 1)
  if byteAt? s tagEnd == some '$' then do
    let delimiter ← slice? s pos (tagEnd + 1)
    let start := pos + delimiter.utf8ByteSize
    let body ← slice? s start s.utf8ByteSize
    let found := find? (Bytes.ofString delimiter) (Bytes.ofString body)
    return closing .stringLiteral .dollarString s (found.map (start + · + delimiter.utf8ByteSize))
  else some (.punct '$', pos + 1)

/-- What begins with a dollar sign, and the position behind it. -/
def dollar? (s : String) (pos : Nat) : Option (Kind × Nat) :=
  let digitsEnd := skipWhile Char.isDigit s (pos + 1)
  if pos + 1 < digitsEnd then
    (slice? s (pos + 1) digitsEnd).map fun digits => (.placeholder (placeholderIndex digits.toList), digitsEnd)
  -- so a tag does not begin with a digit
  else tagged? s pos

/-- The kind of the token that begins at a position with the byte `c`, and the position behind it. -/
def token? (s : String) (pos : Nat) (c : Char) : Option (Kind × Nat) :=
  let next := byteAt? s (pos + 1)
  if c == '-' && next == some '-' then some (.lineComment, skipWhile (· != '\n') s pos)
  else if c == '/' && next == some '*' then
    (commentEnd? s 0 pos).map (closing .blockComment .blockComment s)
  else if c == '\'' then
    some (closing .stringLiteral .stringLiteral s (quoteEnd? '\'' false s (pos + 1)))
  else if (c == 'E' || c == 'e') && next == some '\'' then
    some (closing .stringLiteral .stringLiteral s (quoteEnd? '\'' true s (pos + 2)))
  else if c == '"' then
    some (closing .quotedIdentifier .quotedIdentifier s (quoteEnd? '"' false s (pos + 1)))
  else if c == '$' then dollar? s pos
  else if c.isDigit || (c == '.' && next.any Char.isDigit) then some (.number, numberEnd s false false pos)
  else if isWordStart c then some (.word, skipWhile isWordPart s pos)
  else
    (slice? s pos s.utf8ByteSize).map fun rest =>
      let first := rest.toList.headD ' '
      (.punct first, pos + first.utf8Size)

/-! ## Scanning -/

/-- A token and the offsets in bytes at which it begins and ends. -/
structure Spanned where
  token : Token
  start : Nat
  stop : Nat

/-- The tokens in their order. The construct that is not closed is reported with the offset at which it begins. -/
structure Scanned where
  tokens : List Spanned
  unclosed? : Option (Construct × Nat)

def Scanned.cons (t : Spanned) (r : Scanned) : Scanned :=
  ⟨t :: r.tokens, r.unclosed?⟩

/-- The tokens from a position on. Nothing is scanned behind a construct that is not closed. -/
def scanFrom? (s : String) (pos : Nat) : Option Scanned :=
  match _h : byteAt? s pos with
  | none => some ⟨[], none⟩
  | some c =>
    if isSpace c then scanFrom? s (pos + 1)
    else
      match token? s pos c with
      | none => none
      | some (kind, stop) =>
        -- without a step forward the scan would go on for ever
        if _hstep : pos < stop then
          match slice? s pos stop with
          | none => none
          | some text =>
            let t : Spanned := ⟨⟨kind, text.toList⟩, pos, stop⟩
            match kind with
            | .unclosed what => some ⟨[t], some (what, pos)⟩
            | _ => (scanFrom? s stop).map (Scanned.cons t)
        else none
termination_by s.utf8ByteSize - pos
decreasing_by
  all_goals
    have := lt_of_byteAt? _h
    omega

theorem scanFrom?_def (s : String) (pos : Nat) :
    scanFrom? s pos =
      match byteAt? s pos with
      | none => some ⟨[], none⟩
      | some c =>
        if isSpace c then scanFrom? s (pos + 1)
        else
          match token? s pos c with
          | none => none
          | some (kind, stop) =>
            if pos < stop then
              match slice? s pos stop with
              | none => none
              | some text =>
                let t : Spanned := ⟨⟨kind, text.toList⟩, pos, stop⟩
                match kind with
                | .unclosed what => some ⟨[t], some (what, pos)⟩
                | _ => (scanFrom? s stop).map (Scanned.cons t)
            else none := by
  conv => lhs; rw [scanFrom?.eq_def]
  split
  · rename_i h
    rw [h]
  · rename_i c h
    rw [h]
    rfl

def scan? (s : String) : Option Scanned :=
  scanFrom? s 0

end SpatialQuery.Bytewise
