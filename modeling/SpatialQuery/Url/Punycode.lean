/-!
Text outside ASCII as letters and digits. The characters outside ASCII are written in the order of
their code points, each one as the number of steps from the one before it, with digits whose weights
adapt to the size of the numbers so far.
-/

namespace SpatialQuery.Punycode

def digitChar (d : Nat) : Char :=
  Char.ofNat (if d < 26 then 'a'.toNat + d else '0'.toNat + (d - 26))

/-- The smallest value of the digit at a place that does not end its number. -/
def threshold (place bias : Nat) : Nat :=
  max 1 (min 26 (place - bias))

/-- A number whose digits stand with the least significant one first. -/
def digits (place bias n : Nat) : List Char :=
  let t := threshold place bias
  if h : n < t then [digitChar n]
  else
    have : (n - t) / (36 - t) < n := by
      have ht : 1 ≤ t := Nat.le_max_left ..
      exact Nat.lt_of_le_of_lt (Nat.div_le_self ..) (by omega)
    digitChar (t + (n - t) % (36 - t)) :: digits (place + 36) bias ((n - t) / (36 - t))
termination_by n

def biasOf (k delta : Nat) : Nat :=
  if h : 455 < delta then biasOf (k + 36) (delta / 35) else k + 36 * delta / (delta + 38)
termination_by delta
decreasing_by exact Nat.div_lt_self (by omega) (by omega)

/-- The bias after a number; so many characters have been written. -/
def adapt (delta written : Nat) (first : Bool) : Nat :=
  let delta := if first then delta / 700 else delta / 2
  biasOf 0 (delta + delta / written)

structure State where
  next : Nat := 128
  delta : Nat := 0
  bias : Nat := 72
  written : Nat
  first : Bool := true
  output : List Char := []

/-- Passes a character of the text on the way to the places of a code point. -/
def pass (point : Nat) (s : State) (c : Char) : State :=
  if c.toNat < point then { s with delta := s.delta + 1 }
  else if c.toNat == point then
    { s with
      output := s.output ++ digits 36 s.bias s.delta
      bias := adapt s.delta (s.written + 1) s.first
      delta := 0
      written := s.written + 1
      first := false }
  else s

/-- Writes all places of a code point. -/
def writePoint (cs : List Char) (s : State) (point : Nat) : State :=
  let s := cs.foldl (pass point) { s with delta := s.delta + (point - s.next) * (s.written + 1) }
  { s with delta := s.delta + 1, next := point + 1 }

def isAscii (c : Char) : Bool :=
  c.toNat < 128

/-- The code points outside ASCII, each one once, in order. -/
def points (cs : List Char) : List Nat :=
  (((cs.filter fun c => !isAscii c).map Char.toNat).mergeSort (· ≤ ·)).eraseDups

def encode (cs : List Char) : List Char :=
  let basic := cs.filter isAscii
  let s := (points cs).foldl (writePoint cs) { written := basic.length }
  basic ++ (if basic.isEmpty then [] else ['-']) ++ s.output

end SpatialQuery.Punycode
