import Mathlib.Tactic.IntervalCases
import Mathlib.Tactic.NormNum
import SpatialQuery.Geometry.Header

/-!
Headers of binary geometries as they are written (`Layout`). A header is read exactly where one is written
(`read?_eq_some_iff`), whatever the thousands in the code of its type are; so more is read than the codes
with a meaning if the thousands are beyond three (`header_valid_iff`).
-/

namespace SpatialQuery

/-- The code of a type in binary geometries. -/
def GeometryType.code : GeometryType → Nat
  | geometry => 0
  | point => 1
  | lineString => 2
  | polygon => 3
  | multiPoint => 4
  | multiLineString => 5
  | multiPolygon => 6
  | collection => 7

theorem GeometryType.code_le (t : GeometryType) : t.code ≤ 7 := by
  cases t <;> decide

theorem GeometryType.ofCode?_eq_some_iff {code : Nat} {t : GeometryType} :
    ofCode? code = some t ↔ t.code = code := by
  constructor
  · intro h
    obtain ⟨hlt, rfl⟩ := List.getElem?_eq_some_iff.1 h
    change code < 8 at hlt
    interval_cases code <;> rfl
  · rintro rfl
    cases t <;> rfl

namespace Geometry

/-! ## Numbers of four bytes -/

def wordBytes (little : Bool) (n : Nat) : Bytes :=
  if little then (Bytes.ofNat 4 n).reverse else Bytes.ofNat 4 n

theorem length_wordBytes (little : Bool) (n : Nat) : (wordBytes little n).length = 4 := by
  cases little
  · exact Bytes.length_ofNat 4 n
  · exact (List.length_reverse ..).trans (Bytes.length_ofNat 4 n)

theorem word_wordBytes (little : Bool) {n : Nat} (h : n < 0x100000000) :
    word little (wordBytes little n) = n := by
  have hvalue : (Bytes.ofNat 4 n).toNat = n := by
    rw [Bytes.toNat_ofNat]
    exact Nat.mod_eq_of_lt h
  cases little
  · exact hvalue
  · change Bytes.toNat (Bytes.ofNat 4 n).reverse.reverse = n
    rw [List.reverse_reverse, hvalue]

theorem wordBytes_word (little : Bool) {bs : Bytes} (h : bs.length = 4) :
    wordBytes little (word little bs) = bs := by
  cases little
  · exact Bytes.ofNat_toNat h
  · change (Bytes.ofNat 4 (Bytes.toNat bs.reverse)).reverse = bs
    rw [Bytes.ofNat_toNat (by rwa [List.length_reverse]), List.reverse_reverse]

theorem word_lt (little : Bool) {bs : Bytes} (h : bs.length = 4) : word little bs < 0x100000000 := by
  have hlt : ∀ {cs : Bytes}, cs.length = 4 → cs.toNat < 0x100000000 := by
    intro cs hcs
    have hpow := Bytes.toNat_lt cs
    rwa [hcs] at hpow
  cases little
  · exact hlt h
  · exact hlt ((List.length_reverse ..).trans h)

/-- The number of four bytes that stands for a signed number. -/
def unsigned (i : Int) : Nat :=
  (i % 0x100000000).toNat

theorem unsigned_lt (i : Int) : unsigned i < 0x100000000 := by
  unfold unsigned
  omega

theorem signed_unsigned {i : Int} (h : -0x80000000 ≤ i ∧ i < 0x80000000) :
    Bytes.signed UInt32.size (unsigned i) = i := by
  change (if 2 * (i % 0x100000000).toNat < 0x100000000 then ((i % 0x100000000).toNat : Int)
    else (i % 0x100000000).toNat - (0x100000000 : Nat)) = i
  split <;> omega

theorem unsigned_signed {n : Nat} (h : n < 0x100000000) : unsigned (Bytes.signed UInt32.size n) = n ∧
    -0x80000000 ≤ Bytes.signed UInt32.size n ∧ Bytes.signed UInt32.size n < 0x80000000 := by
  have hsigned : Bytes.signed UInt32.size n =
      if 2 * n < 0x100000000 then (n : Int) else (n : Int) - (0x100000000 : Nat) := rfl
  rw [hsigned, unsigned]
  split <;> omega

theorem hasFlag_of_div {flag w : Nat} {b : Bool} (h : w / 2 ^ flag % 2 = b.toNat) :
    hasFlag flag w = b := by
  rw [hasFlag, Nat.testBit_eq_decide_div_mod_eq, h]
  cases b <;> rfl

/-- The flags are the four highest bits of the word. -/
theorem word_flags {w : Nat} (h : w < 0x100000000) :
    w % 0x10000000 + 2 ^ 28 * (hasFlag 28 w).toNat + 2 ^ 29 * (hasFlag 29 w).toNat +
      2 ^ 30 * (hasFlag 30 w).toNat + 2 ^ 31 * (hasFlag 31 w).toNat = w := by
  simp only [hasFlag, Nat.toNat_testBit]
  omega

/-! ## Layouts -/

/-- A header as it is written: the order of the bytes, a word with the flags, the dimensions and the type, and the
reference system, if there is one. -/
structure Layout where
  little : Bool
  flagZ : Bool
  flagM : Bool
  /-- A bit of the word that says nothing. -/
  spare : Bool
  dimensions : Nat
  type : GeometryType
  srid : Option Int
  /-- The dimensions and the type have 28 bits. -/
  dimensions_le : dimensions ≤ 268435
  srid_range : ∀ i ∈ srid, -0x80000000 ≤ i ∧ i < 0x80000000

namespace Layout

def typeWord (l : Layout) : Nat :=
  1000 * l.dimensions + l.type.code + 2 ^ 28 * l.spare.toNat + 2 ^ 29 * l.srid.isSome.toNat +
    2 ^ 30 * l.flagM.toNat + 2 ^ 31 * l.flagZ.toNat

def sridBytes (l : Layout) : Bytes :=
  (l.srid.map fun i => wordBytes l.little (unsigned i)).getD []

def bytes (l : Layout) : Bytes :=
  l.little.toUInt8 :: (wordBytes l.little l.typeWord ++ l.sridBytes)

/-- What the header tells. The dimensions may stand in the flags or in the thousands of the code. -/
def header (l : Layout) : Header where
  type := l.type
  srid := l.srid.filter (· != 0)
  hasZ := l.flagZ || l.dimensions == 1 || l.dimensions == 3
  hasM := l.flagM || l.dimensions == 2 || l.dimensions == 3

/-- The code and the spare bit stand below the other flags. -/
theorem typeWord_div (l : Layout) :
    l.typeWord / 2 ^ 29 = l.srid.isSome.toNat + 2 * l.flagM.toNat + 4 * l.flagZ.toNat := by
  have hcode := l.type.code_le
  have hdimensions := l.dimensions_le
  have hspare := l.spare.toNat_le
  unfold typeWord
  omega

theorem typeWord_lt (l : Layout) : l.typeWord < 0x100000000 := by
  have hhigh := l.typeWord_div
  have hsrid := l.srid.isSome.toNat_le
  have hflagM := l.flagM.toNat_le
  have hflagZ := l.flagZ.toNat_le
  omega

theorem typeWord_mod (l : Layout) : l.typeWord % 0x10000000 = 1000 * l.dimensions + l.type.code := by
  have hcode := l.type.code_le
  have hdimensions := l.dimensions_le
  unfold typeWord
  omega

theorem hasFlag_typeWord (l : Layout) : hasFlag 29 l.typeWord = l.srid.isSome ∧
    hasFlag 30 l.typeWord = l.flagM ∧ hasFlag 31 l.typeWord = l.flagZ := by
  have hhigh := l.typeWord_div
  have hsrid := l.srid.isSome.toNat_le
  have hflagM := l.flagM.toNat_le
  have hflagZ := l.flagZ.toNat_le
  refine ⟨hasFlag_of_div ?_, hasFlag_of_div ?_, hasFlag_of_div ?_⟩ <;> omega

end Layout

/-- A word with a type in it is the word of a layout. -/
theorem exists_layout (little : Bool) (srid : Option Int) {w : Nat} {type : GeometryType}
    (hw : w < 0x100000000) (htype : GeometryType.ofCode? (w % 0x10000000 % 1000) = some type)
    (hsrid : hasFlag 29 w = srid.isSome) (hrange : ∀ i ∈ srid, -0x80000000 ≤ i ∧ i < 0x80000000) :
    ∃ l : Layout, l.little = little ∧ l.srid = srid ∧ l.typeWord = w := by
  have hcode := GeometryType.ofCode?_eq_some_iff.1 htype
  have hflags := word_flags hw
  rw [hsrid] at hflags
  let l : Layout := {
    little, flagZ := hasFlag 31 w, flagM := hasFlag 30 w, spare := hasFlag 28 w
    dimensions := w % 0x10000000 / 1000, type, srid
    dimensions_le := by omega
    srid_range := hrange }
  refine ⟨l, rfl, rfl, ?_⟩
  change 1000 * (w % 0x10000000 / 1000) + type.code + 2 ^ 28 * (hasFlag 28 w).toNat +
    2 ^ 29 * srid.isSome.toNat + 2 ^ 30 * (hasFlag 30 w).toNat + 2 ^ 31 * (hasFlag 31 w).toNat = w
  omega

/-! ## Reading -/

theorem readSrid?_sridBytes (l : Layout) (rest : Bytes) (h : l.srid.isSome) :
    readSrid? l.little (l.sridBytes ++ rest) = l.srid := by
  obtain ⟨i, hi⟩ := Option.isSome_iff_exists.1 h
  have hlength := length_wordBytes l.little (unsigned i)
  have hbytes : l.sridBytes = wordBytes l.little (unsigned i) := by
    rw [Layout.sridBytes, hi]
    rfl
  have hlong : ¬ (wordBytes l.little (unsigned i) ++ rest).length < 4 := by
    rw [List.length_append]
    omega
  rw [hbytes, readSrid?, if_neg hlong, List.take_left' hlength, word_wordBytes _ (unsigned_lt i),
    signed_unsigned (l.srid_range i hi), hi]

theorem exists_bytes {bs : Bytes} (h : bs.length = 4) : ∃ b₁ b₂ b₃ b₄, bs = [b₁, b₂, b₃, b₄] := by
  match bs, h with
  | [b₁, b₂, b₃, b₄], _ => exact ⟨b₁, b₂, b₃, b₄, rfl⟩

theorem read?_bytes (l : Layout) (rest : Bytes) : Header.read? (l.bytes ++ rest) = some l.header := by
  obtain ⟨b₁, b₂, b₃, b₄, hbytes⟩ := exists_bytes (length_wordBytes l.little l.typeWord)
  have hword : word l.little [b₁, b₂, b₃, b₄] = l.typeWord := by
    rw [← hbytes, word_wordBytes _ l.typeWord_lt]
  have hcode := l.type.code_le
  have htype : GeometryType.ofCode? (l.typeWord % 0x10000000 % 1000) = some l.type := by
    rw [GeometryType.ofCode?_eq_some_iff, l.typeWord_mod]
    omega
  have hdimensions : l.typeWord % 0x10000000 / 1000 = l.dimensions := by
    rw [l.typeWord_mod]
    omega
  have horder : ¬ 1 < l.little.toUInt8 ∧ (l.little.toUInt8 == 1) = l.little := by
    cases l.little <;> decide
  obtain ⟨hsrid, hflagM, hflagZ⟩ := l.hasFlag_typeWord
  rw [Layout.bytes, hbytes]
  simp only [List.cons_append, List.nil_append, Header.read?, if_neg horder.1, horder.2, hword, htype,
    hdimensions, hsrid, hflagM, hflagZ]
  cases h : l.srid with
  | none => simp [Layout.header, h]
  | some i =>
    rw [readSrid?_sridBytes l rest (by rw [h]; rfl), h]
    simp [Layout.header, h]

theorem readSrid?_eq_some {little : Bool} {bs : Bytes} {i : Int} (h : readSrid? little bs = some i) :
    wordBytes little (unsigned i) <+: bs ∧ -0x80000000 ≤ i ∧ i < 0x80000000 := by
  unfold readSrid? at h
  split at h
  · cases h
  · next hlong =>
    have hlength : (bs.take 4).length = 4 := by
      rw [List.length_take]
      omega
    obtain ⟨hunsigned, hrange⟩ := unsigned_signed (word_lt little hlength)
    rw [Option.some.injEq] at h
    subst h
    rw [hunsigned, wordBytes_word little hlength]
    exact ⟨List.take_prefix 4 bs, hrange⟩

theorem toUInt8_order {order : UInt8} (h : ¬ 1 < order) : (order == 1).toUInt8 = order := by
  have hle : order.toNat ≤ 1 := by
    rw [UInt8.lt_iff_toNat_lt] at h
    exact Nat.le_of_not_lt h
  obtain hzero | hone : order.toNat = 0 ∨ order.toNat = 1 := by omega
  · obtain rfl : order = 0 := UInt8.toNat_inj.1 hzero
    rfl
  · obtain rfl : order = 1 := UInt8.toNat_inj.1 hone
    rfl

/-- What is in bytes with a header. -/
theorem read?_parts {bs : Bytes} {header : Header} (h : Header.read? bs = some header) :
    ∃ (little : Bool) (wordPart rest : Bytes) (type : GeometryType), wordPart.length = 4 ∧
      bs = little.toUInt8 :: (wordPart ++ rest) ∧
      GeometryType.ofCode? (word little wordPart % 0x10000000 % 1000) = some type ∧
      (hasFlag 29 (word little wordPart) → ∃ i, readSrid? little rest = some i) := by
  unfold Header.read? at h
  split at h
  · next order b₁ b₂ b₃ b₄ rest =>
    split at h
    · cases h
    · next horder =>
      simp only at h
      refine ⟨order == 1, [b₁, b₂, b₃, b₄], rest, ?_⟩
      rw [toUInt8_order horder]
      split at h
      · cases h
      · cases h
      · next type htype hsome =>
        refine ⟨type, rfl, rfl, htype, fun hset => ?_⟩
        exact Option.ne_none_iff_exists'.1 (hsome hset)
  · cases h

/-- Only the bytes of a layout are read as a header. -/
theorem exists_layout_of_read? {bs : Bytes} {header : Header} (h : Header.read? bs = some header) :
    ∃ l : Layout, l.bytes <+: bs := by
  obtain ⟨little, wordPart, rest, type, hlength, rfl, htype, hsome⟩ := read?_parts h
  have hbytes := wordBytes_word little hlength
  have hw := word_lt little hlength
  cases hflag : hasFlag 29 (word little wordPart) with
  | false =>
    obtain ⟨l, rfl, hsrid, hword⟩ := exists_layout little none hw htype hflag (by simp)
    refine ⟨l, rest, ?_⟩
    rw [Layout.bytes, Layout.sridBytes, hsrid, hword, hbytes]
    simp
  | true =>
    obtain ⟨i, hi⟩ := hsome hflag
    obtain ⟨⟨after, rfl⟩, hrange⟩ := readSrid?_eq_some hi
    obtain ⟨l, rfl, hsrid, hword⟩ := exists_layout little (some i) hw htype hflag (by simpa using hrange)
    refine ⟨l, after, ?_⟩
    rw [Layout.bytes, Layout.sridBytes, hsrid, hword, hbytes]
    simp

/-- A header is read exactly where one is written. -/
theorem read?_eq_some_iff {bs : Bytes} {header : Header} :
    Header.read? bs = some header ↔ ∃ l : Layout, l.bytes <+: bs ∧ l.header = header := by
  constructor
  · intro h
    obtain ⟨l, rest, rfl⟩ := exists_layout_of_read? h
    rw [read?_bytes, Option.some.injEq] at h
    exact ⟨l, List.prefix_append .., h⟩
  · rintro ⟨l, ⟨rest, rfl⟩, rfl⟩
    exact read?_bytes l rest

/-- Bytes begin with the words of at most one code. -/
theorem typeWord_unique {l l' : Layout} {bs : Bytes} (h : l.bytes <+: bs) (h' : l'.bytes <+: bs) :
    l.typeWord = l'.typeWord := by
  obtain ⟨rest, rfl⟩ := h
  obtain ⟨rest', heq⟩ := h'
  simp only [Layout.bytes, List.cons_append, List.append_assoc, List.cons.injEq] at heq
  obtain ⟨horder, htail⟩ := heq
  have hlittle : l'.little = l.little := by
    cases hl : l.little <;> cases hl' : l'.little <;> rw [hl, hl'] at horder <;> first | rfl | cases horder
  have hwords := (List.append_inj htail (by rw [length_wordBytes, length_wordBytes])).1
  rw [← word_wordBytes l.little l.typeWord_lt, ← hwords, hlittle, word_wordBytes _ l'.typeWord_lt]

theorem dimensions_unique {l l' : Layout} {bs : Bytes} (h : l.bytes <+: bs) (h' : l'.bytes <+: bs) :
    l.dimensions = l'.dimensions := by
  have hmod := l.typeWord_mod
  rw [typeWord_unique h h', l'.typeWord_mod] at hmod
  have hcode := l.type.code_le
  have hcode' := l'.type.code_le
  omega

/-- The headers that are read are those whose code has a meaning exactly if there are no thousands beyond three in
the code. -/
theorem header_valid_iff (bs : Bytes) :
    (∀ header, Header.read? bs = some header ↔
      ∃ l : Layout, l.dimensions ≤ 3 ∧ l.bytes <+: bs ∧ l.header = header) ↔
    ∀ l : Layout, l.bytes <+: bs → l.dimensions ≤ 3 := by
  constructor
  · intro hvalid l hl
    obtain ⟨l', hle, hl', -⟩ := (hvalid l.header).1 (read?_eq_some_iff.2 ⟨l, hl, rfl⟩)
    rwa [dimensions_unique hl hl']
  · intro hle header
    rw [read?_eq_some_iff]
    constructor
    · rintro ⟨l, hl, rfl⟩
      exact ⟨l, hle l hl, hl, rfl⟩
    · rintro ⟨l, -, hl, rfl⟩
      exact ⟨l, hl, rfl⟩

/-- The code 4001 is read as a point. -/
theorem header_four_thousand : Header.read? [1, 0xA1, 0x0F, 0, 0] = some ⟨.point, none, false, false⟩ ∧
    ¬ ∃ l : Layout, l.dimensions ≤ 3 ∧ l.bytes <+: [1, 0xA1, 0x0F, 0, 0] ∧
      l.header = ⟨.point, none, false, false⟩ := by
  refine ⟨by decide, ?_⟩
  rintro ⟨l, hle, hl, -⟩
  -- the bytes are a layout with the thousands 4, and no other thousands are in them
  let four : Layout := {
    little := true, flagZ := false, flagM := false, spare := false, dimensions := 4, type := .point, srid := none
    dimensions_le := by decide
    srid_range := by simp }
  have hfour : four.bytes <+: [1, 0xA1, 0x0F, 0, 0] := by decide
  rw [dimensions_unique hl hfour] at hle
  exact absurd hle (by decide)

end Geometry

end SpatialQuery
