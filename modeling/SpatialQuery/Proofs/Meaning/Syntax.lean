import SpatialQuery.Definition
import SpatialQuery.Token.Scan

/-!
Expressions as SQL reads them. A text is read from left to right with a stack of what is still open.
Operators bind in this order: `||`, then `LIKE`, `IN` and `BETWEEN`, then comparisons, then `IS NULL`, then
`AND`, then `OR`; those that bind alike are read from the left. The first `AND` behind a `BETWEEN` belongs
to it.
-/

namespace SpatialQuery.Meaning

open Token

inductive Binary where
  | or
  | and
  | compare (c : Comparison)
  | like (negated anyCase : Bool)
  | concat
  deriving DecidableEq, Repr

/-- How tightly `IS NULL` binds. -/
def testBinding : Nat := 3

/-- How tightly `LIKE`, `IN` and `BETWEEN` bind. -/
def rangeBinding : Nat := 5

def Binary.binding : Binary → Nat
  | or => 1
  | and => 2
  | compare _ => 4
  | like _ _ => rangeBinding
  | concat => 6

/-- An expression. Names of columns are in quotes, a word is the name of a function. -/
inductive Expr where
  | column (names : List String)
  | param (index : Nat)
  | text (cs : List Char)
  | call (function : String) (arguments : List Expr)
  | binary (o : Binary) (a b : Expr)
  | isNull (negated : Bool) (a : Expr)
  | member (negated : Bool) (a : Expr) (items : List Expr)
  | between (negated : Bool) (a low high : Expr)
  deriving Repr

/-- What a list in parentheses belongs to. -/
inductive Opening where
  | call (function : String)
  | member (negated : Bool) (a : Expr)

def Opening.close : Opening → List Expr → Expr
  | call function, items => .call function items
  | member negated a, items => .member negated a items

/-- What is still open. -/
inductive Frame where
  | group
  | items (o : Opening) (done : List Expr)
  | binary (o : Binary) (a : Expr)
  /-- `BETWEEN`, in front of its lower bound. -/
  | low (negated : Bool) (a : Expr)
  /-- `BETWEEN`, in front of its upper bound. -/
  | high (negated : Bool) (a low : Expr)

/-- What was read last, behind everything that is open. -/
inductive Mode where
  /-- An operand follows. -/
  | operand
  | function (name : String)
  | dot (names : List String)
  | behind (e : Expr)
  | sign (e : Expr) (cs : List Char)
  | is (e : Expr)
  | isNot (e : Expr)
  | not (e : Expr)
  | list (negated : Bool) (e : Expr)

structure State where
  frames : List Frame
  mode : Mode

/-- Closes the operators in front of an operand that bind at least as tightly as `k`. -/
def reduce (k : Nat) : List Frame → Expr → List Frame × Expr
  | .binary o a :: fs, e => if k ≤ o.binding then reduce k fs (.binary o a e) else (.binary o a :: fs, e)
  | .high negated a low :: fs, e =>
    if k ≤ rangeBinding then reduce k fs (.between negated a low e) else (.high negated a low :: fs, e)
  | fs, e => (fs, e)

/-- An operator behind an operand. -/
def shift (o : Binary) (fs : List Frame) (e : Expr) : State :=
  ⟨.binary o (reduce o.binding fs e).2 :: (reduce o.binding fs e).1, .operand⟩

def shiftAnd (fs : List Frame) (e : Expr) : State :=
  match reduce testBinding fs e with
  | (.low negated a :: fs, low) => ⟨.high negated a low :: fs, .operand⟩
  | (fs, e) => shift .and fs e

def closeGroup (fs : List Frame) (e : Expr) : Option State :=
  match reduce 0 fs e with
  | (.group :: fs, e) => some ⟨fs, .behind e⟩
  | (.items o done :: fs, e) => some ⟨fs, .behind (o.close (done ++ [e]))⟩
  | _ => none

def nextItem (fs : List Frame) (e : Expr) : Option State :=
  match reduce 0 fs e with
  | (.items o done :: fs, e) => some ⟨.items o (done ++ [e]) :: fs, .operand⟩
  | _ => none

/-- The characters of operators. -/
def signChars : List Char :=
  ['+', '-', '*', '/', '<', '>', '=', '~', '!', '@', '#', '%', '^', '&', '|', '?']

def signs : List (List Char × Binary) :=
  [(['='], .compare .equal), (['<', '>'], .compare .notEqual), (['!', '='], .compare .notEqual),
    (['<'], .compare .less), (['<', '='], .compare .lessOrEqual), (['>'], .compare .greater),
    (['>', '='], .compare .greaterOrEqual), (['|', '|'], .concat)]

/-- The text of a literal between single quotes. -/
def literal? : List Char → Option (List Char)
  | '\'' :: cs => some (Text.undouble '\'' cs.dropLast)
  | _ => none

/-- The first token of an operand. -/
def startOperand (fs : List Frame) (t : Token) : Option State :=
  match t.kind with
  | .quotedIdentifier => t.name?.map fun n => ⟨fs, .behind (.column [n])⟩
  | .word => t.name?.map fun n => ⟨fs, .function n⟩
  | .placeholder _ => some ⟨fs, .behind (.param (Nat.ofDigitChars 10 (t.text.drop 1) 0))⟩
  | .stringLiteral => (literal? t.text).map fun cs => ⟨fs, .behind (.text cs)⟩
  | .punct '(' => some ⟨.group :: fs, .operand⟩
  | _ => none

/-- The operators that `NOT` may stand in front of. -/
def rangeStep (negated : Bool) (fs : List Frame) (e : Expr) (t : Token) : Option State :=
  if t.isKeyword "like" then some (shift (.like negated false) fs e)
  else if t.isKeyword "ilike" then some (shift (.like negated true) fs e)
  else
    let (fs, e) := reduce rangeBinding fs e
    if t.isKeyword "in" then some ⟨fs, .list negated e⟩
    else if t.isKeyword "between" then some ⟨.low negated e :: fs, .operand⟩
    else none

def wordStep (fs : List Frame) (e : Expr) (t : Token) : Option State :=
  if t.isKeyword "and" then some (shiftAnd fs e)
  else if t.isKeyword "or" then some (shift .or fs e)
  else if t.isKeyword "is" then some ⟨(reduce testBinding fs e).1, .is (reduce testBinding fs e).2⟩
  else if t.isKeyword "not" then some ⟨fs, .not e⟩
  else rangeStep false fs e t

/-- A token behind an operand. -/
def behindStep (fs : List Frame) (e : Expr) (t : Token) : Option State :=
  match t.kind with
  | .word => wordStep fs e t
  | .punct '.' =>
    match e with
    | .column names => some ⟨fs, .dot names⟩
    | _ => none
  | .punct ',' => nextItem fs e
  | .punct ')' => closeGroup fs e
  | .punct c => if signChars.contains c then some ⟨fs, .sign e [c]⟩ else none
  | _ => none

/-- One more character of an operator, if it follows directly. -/
def signChar? (p : Piece) : Option Char :=
  match p.token.kind with
  | .punct c => if p.blanks.isEmpty && signChars.contains c then some c else none
  | _ => none

def signStep (fs : List Frame) (e : Expr) (cs : List Char) (p : Piece) : Option State :=
  match signChar? p with
  | some c => some ⟨fs, .sign e (cs ++ [c])⟩
  | none => (List.lookup cs signs).bind fun o => startOperand (shift o fs e).frames p.token

def opened (o : Opening) (fs : List Frame) (t : Token) : Option State :=
  if t.isPunct '(' then some ⟨.items o [] :: fs, .operand⟩ else none

def step : State → Piece → Option State
  | ⟨fs, .operand⟩, p => startOperand fs p.token
  | ⟨fs, .function name⟩, p => opened (.call name) fs p.token
  | ⟨fs, .dot names⟩, p =>
    if p.token.kind == .quotedIdentifier then
      p.token.name?.map fun n => ⟨fs, .behind (.column (names ++ [n]))⟩
    else none
  | ⟨fs, .behind e⟩, p => behindStep fs e p.token
  | ⟨fs, .sign e cs⟩, p => signStep fs e cs p
  | ⟨fs, .is e⟩, p =>
    if p.token.isKeyword "null" then some ⟨fs, .behind (.isNull false e)⟩
    else if p.token.isKeyword "not" then some ⟨fs, .isNot e⟩
    else none
  | ⟨fs, .isNot e⟩, p =>
    if p.token.isKeyword "null" then some ⟨fs, .behind (.isNull true e)⟩ else none
  | ⟨fs, .not e⟩, p => rangeStep true fs e p.token
  | ⟨fs, .list negated e⟩, p => opened (.member negated e) fs p.token

def run (s : State) (ps : List Piece) : Option State :=
  ps.foldlM step s

/-- The expression, if nothing is open. -/
def finish : State → Option Expr
  | ⟨fs, .behind e⟩ =>
    match reduce 0 fs e with
    | ([], e) => some e
    | _ => none
  | _ => none

/-- The expression that a text is read as. -/
def readExpr (sql : String) : Option Expr :=
  (run ⟨[], .operand⟩ (Scan.ofString sql).pieces).bind finish

end SpatialQuery.Meaning
