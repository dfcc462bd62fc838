import SpatialQuery.Bytes
import SpatialQuery.Geometry

/-!
Headers of binary geometries: the order of the bytes, the type, and, if there is one, the number of the
reference system.
-/

namespace SpatialQuery.Geometry

structure Header where
  type : GeometryType
  /-- The reference system; 0 stands for none. -/
  srid : Option Int
  hasZ : Bool
  hasM : Bool
  deriving DecidableEq, Repr

/-- A number of four bytes. -/
def word (little : Bool) (bs : Bytes) : Nat :=
  Bytes.toNat (if little then bs.reverse else bs)

/-- The reference system that follows the type. -/
def readSrid? (little : Bool) (bs : Bytes) : Option Int :=
  if bs.length < 4 then none
  else some (Bytes.signed UInt32.size (word little (bs.take 4)))

/-- A bit of the type word. -/
def hasFlag (flag typeWord : Nat) : Bool :=
  typeWord.testBit flag

/-- Reads the header at the front of a geometry. The dimensions stand in flags, or in the thousands of
the code of the type. -/
def Header.read? : Bytes → Option Header
  | order :: b₁ :: b₂ :: b₃ :: b₄ :: rest =>
    if 1 < order then none
    else
      let little := order == 1
      let typeWord := word little [b₁, b₂, b₃, b₄]
      let code := typeWord % 0x10000000
      let dimensions := code / 1000
      match GeometryType.ofCode? (code % 1000), hasFlag 29 typeWord, readSrid? little rest with
      | none, _, _ => none
      -- The flag promises a reference system that is not there.
      | some _, true, none => none
      | some type, hasSrid, srid =>
        some {
          type
          srid := if hasSrid then srid.filter (· != 0) else none
          hasZ := hasFlag 31 typeWord || dimensions == 1 || dimensions == 3
          hasM := hasFlag 30 typeWord || dimensions == 2 || dimensions == 3 }
  | _ => none

end SpatialQuery.Geometry
