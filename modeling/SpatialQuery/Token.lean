import SpatialQuery.Text.Case
import SpatialQuery.Text.Quoted

/-!
Tokens of SQL text. A token carries the characters it was read from, so that texts are put together
again from their tokens.
-/

namespace SpatialQuery

/-- A construct that runs up to a closing mark. -/
inductive Construct where
  | stringLiteral
  | quotedIdentifier
  | blockComment
  | dollarString
  deriving DecidableEq, Repr

def Construct.name : Construct → String
  | .stringLiteral => "string literal"
  | .quotedIdentifier => "quoted identifier"
  | .blockComment => "block comment"
  | .dollarString => "dollar-quoted string"

inductive Token.Kind where
  /-- A keyword or an unquoted identifier. -/
  | word
  | quotedIdentifier
  | stringLiteral
  | number
  | placeholder (index : Nat)
  | lineComment
  | blockComment
  /-- Any other single character. -/
  | punct (c : Char)
  /-- A construct whose closing mark is missing. -/
  | unclosed (what : Construct)
  deriving DecidableEq, Repr

structure Token where
  kind : Token.Kind
  text : List Char
  deriving DecidableEq, Repr

namespace Token

def isComment (t : Token) : Bool :=
  match t.kind with
  | .lineComment | .blockComment | .unclosed .blockComment => true
  | _ => false

def isPunct (t : Token) (c : Char) : Bool :=
  t.kind == .punct c

/-- The keyword in any letter case; quoting a keyword makes it an identifier. -/
def isKeyword (t : Token) (keyword : String) : Bool :=
  t.kind == .word && Text.sameLetters t.text keyword.toList

/-- One of the keywords, in any letter case. -/
def isAnyKeyword (t : Token) (keywords : List String) : Bool :=
  keywords.any t.isKeyword

def isNumber (t : Token) : Bool :=
  t.kind == .number

/-- The name that a word or a quoted identifier stands for: a word is folded to lower case, a
quoted identifier is taken as it is written. -/
def name? (t : Token) : Option String :=
  match t.kind with
  | .word => some (String.ofList (Text.lowerChars t.text))
  | .quotedIdentifier => some (String.ofList (Text.undouble '"' (t.text.drop 1).dropLast))
  | _ => none

def placeholder? (t : Token) : Option Nat :=
  match t.kind with
  | .placeholder index => some index
  | _ => none

end Token

end SpatialQuery
