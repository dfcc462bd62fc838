import SpatialQuery.Identifier
import SpatialQuery.Value

/-!
SQL text in pieces: blanks, and one fragment for every token. Parameters stand in the text as
placeholders, which are numbered from left to right.
-/

namespace SpatialQuery.Sql

inductive Fragment where
  | blank
  /-- A keyword, or the name of a function. -/
  | keyword (word : String)
  /-- A name, in double quotes. -/
  | name (i : Identifier)
  | symbol (c : Char)
  | number (n : Nat)
  /-- The pattern that matches any text, as a literal. -/
  | anyText
  | param (v : Value)
  deriving BEq

namespace Fragment

/-- The text of a fragment, with the number of its placeholder. -/
def text (index : Nat) : Fragment → List Char
  | blank => [' ']
  | keyword word => word.toList
  | name i => '"' :: i.name.toList ++ ['"']
  | symbol c => [c]
  | number n => Text.ofNat n
  | anyText => ['\'', '%', '\'']
  | param _ => '$' :: Text.ofNat index

/-- The text of fragments, with placeholders from `index` on. -/
def texts (index : Nat) : List Fragment → List Char
  | [] => []
  | param v :: fs => (param v).text index ++ texts (index + 1) fs
  | f :: fs => f.text index ++ texts index fs

def value? : Fragment → Option Value
  | param v => some v
  | _ => none

/-- The values of the parameters, in the order of their placeholders. -/
def values (fs : List Fragment) : List Value :=
  fs.filterMap value?

end Fragment

open Fragment

/-- Keywords with a blank between each two. -/
def words (ws : List String) : List Fragment :=
  (ws.map keyword).intersperse blank

/-- Items with commas between them. -/
def commaList (items : List (List Fragment)) : List Fragment :=
  [symbol ',', blank].intercalate items

/-- The call of a function. -/
def call (function : String) (arguments : List (List Fragment)) : List Fragment :=
  keyword function :: symbol '(' :: commaList arguments ++ [symbol ')']

/-- A name, with another one after `AS`, if there is one. -/
def labelled (fs : List Fragment) : Option Identifier → List Fragment
  | none => fs
  | some i => fs ++ [blank, keyword "AS", blank, name i]

end SpatialQuery.Sql
