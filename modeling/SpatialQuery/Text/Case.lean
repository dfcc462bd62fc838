import SpatialQuery.Text.CaseTable

/-!
Lower and upper case of a text, by the full Unicode mappings. A capital sigma that ends a word
becomes the final small sigma.
-/

namespace SpatialQuery.Text

def inRanges (rs : List (Nat × Nat)) (c : Char) : Bool :=
  rs.any fun r => r.1 ≤ c.toNat && c.toNat ≤ r.2

def simpleCase (rs : List CaseRange) (c : Char) : Char :=
  ((rs.findSome? (·.map? c.toNat)).map Char.ofNat).getD c

/-- The lower case of one character. -/
def lowerOf (c : Char) : List Char :=
  if c.toNat < 0x80 then [c.toLower]
  else if c.toNat == 0x130 then ['i', Char.ofNat 0x307]
  else [simpleCase lowerRanges c]

/-- The upper case of one character. -/
def upperOf (c : Char) : List Char :=
  if c.toNat < 0x80 then [c.toUpper]
  else match upperSequences.lookup c.toNat with
    | some ns => ns.map Char.ofNat
    | none => [simpleCase upperRanges c]

/-- The first character that is not case-ignorable is a cased letter. -/
def startsCased (cs : List Char) : Bool :=
  match cs.dropWhile (inRanges caseIgnorableRanges) with
  | c :: _ => inRanges casedRanges c
  | [] => false

/-- The lower case of the second text, whose predecessors are the first one read backwards. -/
def lowerAfter : List Char → List Char → List Char
  | _, [] => []
  | before, c :: cs =>
    (if c == 'Σ' then
      [if startsCased before && !startsCased cs then 'ς' else 'σ']
    else
      lowerOf c) ++ lowerAfter (c :: before) cs

def lowerChars (cs : List Char) : List Char :=
  lowerAfter [] cs

def upperChars (cs : List Char) : List Char :=
  cs.flatMap upperOf

def lower (s : String) : String :=
  String.ofList (lowerChars s.toList)

def upper (s : String) : String :=
  String.ofList (upperChars s.toList)

/-- Equality up to the case of ASCII letters. -/
def sameLetters (a b : List Char) : Bool :=
  a.map Char.toLower == b.map Char.toLower

theorem lowerOf_ascii {c : Char} (h : c.toNat < 0x80) : lowerOf c = [c.toLower] := by
  simp [lowerOf, h]

end SpatialQuery.Text
