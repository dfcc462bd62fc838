import SpatialQuery.Bytes
import SpatialQuery.Text.Integer

/-!
Addresses of the Internet Protocol: four numbers of 8 bits, or eight groups of 16 bits.
-/

namespace SpatialQuery

inductive IpAddress where
  | v4 (numbers : List Nat)
  | v6 (groups : List Nat)
  deriving DecidableEq, Repr

namespace IpAddress

/-! ## Reading -/

/-- A number up to 255 in decimal digits, without leading zeros. -/
def readNumber? (cs : List Char) : Option Nat :=
  if cs.isEmpty || 3 < cs.length || !cs.all Char.isDigit || 1 < cs.length && cs.head? == some '0' then none
  else
    let n := cs.foldl (fun n c => 10 * n + Text.digitValue c) 0
    if n ≤ 255 then some n else none

/-- The four numbers of an address. -/
def readNumbers? (cs : List Char) : Option (List Nat) :=
  let parts := cs.splitOn '.'
  if parts.length == 4 then parts.mapM readNumber? else none

def readGroup? (cs : List Char) : Option Nat :=
  if cs.isEmpty || 4 < cs.length then none
  else (cs.mapM Bytes.hexValue?).map fun ds => ds.foldl (fun n d => 16 * n + d) 0

/-- Groups between colons, the last of which may be four numbers, which are two groups. -/
def readGroups? : List (List Char) → Option (List Nat)
  | [] => some []
  | [cs] =>
    match readNumbers? cs with
    | some [a, b, c, d] => some [256 * a + b, 256 * c + d]
    | _ => (readGroup? cs).map ([·])
  | cs :: rest => do
    return (← readGroup? cs) :: (← readGroups? rest)

/-- The groups of a text, which may be empty. -/
def groupsOf? (cs : List Char) : Option (List Nat) :=
  if cs.isEmpty then some [] else readGroups? (cs.splitOn ':')

/-- The text before the first double colon, and behind it. -/
def splitDouble? : List Char → Option (List Char × List Char)
  | ':' :: ':' :: cs => some ([], cs)
  | c :: cs => (splitDouble? cs).map fun (a, b) => (c :: a, b)
  | [] => none

/-- Reads eight groups. A double colon stands for one or more groups that are zero. -/
def readV6? (cs : List Char) : Option (List Nat) :=
  match splitDouble? cs with
  | none => (groupsOf? cs).filter (·.length == 8)
  | some (before, after) =>
    if before.contains '.' then none
    else match groupsOf? before, groupsOf? after with
      | some a, some b =>
        if a.length + b.length < 8 then some (a ++ List.replicate (8 - a.length - b.length) 0 ++ b) else none
      | _, _ => none

def read? (cs : List Char) : Option IpAddress :=
  ((readNumbers? cs).map v4).or ((readV6? cs).map v6)

/-! ## Text -/

/-- Hexadecimal digits in lower case, without leading zeros. -/
def groupText (n : Nat) : List Char :=
  Nat.toDigits 16 n

/-- The zeros at the front of every tail. -/
def zeroRuns : List Nat → List Nat
  | [] => []
  | g :: gs => ((g :: gs).takeWhile (· == 0)).length :: zeroRuns gs

/-- The place and the length of the longest run of zeros; the first one of equal length. -/
def longestRun (gs : List Nat) : Nat × Nat :=
  let runs := zeroRuns gs
  let longest := runs.foldl max 0
  (runs.idxOf longest, longest)

def joined (gs : List Nat) : List Char :=
  [':'].intercalate (gs.map groupText)

/-- The text of an address. The longest run of zeros is left out if it has two groups or more. -/
def text : IpAddress → List Char
  | v4 numbers => ['.'].intercalate (numbers.map Text.ofNat)
  | v6 groups =>
    let (start, length) := longestRun groups
    if length < 2 then joined groups
    else joined (groups.take start) ++ [':', ':'] ++ joined (groups.drop (start + length))

end IpAddress

end SpatialQuery
