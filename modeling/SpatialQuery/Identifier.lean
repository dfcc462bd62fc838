import SpatialQuery.Text.Blank

/-!
Names of schemas, relations and columns, as definitions may use them.
-/

namespace SpatialQuery

/-- An ASCII letter or an underscore. -/
def isNameStart (c : Char) : Bool :=
  c.isAlpha || c == '_'

def isNamePart (c : Char) : Bool :=
  isNameStart c || c.isDigit

/-- Letters, digits and underscores, with no digit in front. -/
def isPlainName : List Char → Bool
  | [] => false
  | c :: cs => isNameStart c && cs.all isNamePart

theorem isNamePart_of_plain {cs : List Char} (h : isPlainName cs = true) : ∀ c ∈ cs, isNamePart c = true := by
  cases cs with
  | nil => exact List.forall_mem_nil _
  | cons c cs =>
    rw [isPlainName, Bool.and_eq_true, List.all_eq_true] at h
    refine List.forall_mem_cons.2 ⟨?_, h.2⟩
    rw [isNamePart, h.1, Bool.true_or]

structure Identifier where
  name : String
  isPlain : isPlainName name.toList = true
  deriving DecidableEq, Repr

namespace Identifier

/-- Removes double quotes that surround the text. A quote in front needs one at the end. -/
def unquote? : List Char → Option (List Char)
  | '"' :: cs => if cs.getLast? == some '"' then some cs.dropLast else none
  | cs => some cs

/-- Reads a name, with or without blanks and double quotes around it. -/
def ofString? (s : String) : Option Identifier :=
  match unquote? (Text.trim s).toList with
  | none => none
  | some cs =>
    if h : isPlainName cs then some ⟨String.ofList cs, by rwa [String.toList_ofList]⟩ else none

end Identifier

end SpatialQuery
