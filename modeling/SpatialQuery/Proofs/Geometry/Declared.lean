import Mathlib
import SpatialQuery.Geometry.Declared
import SpatialQuery.Identifier
import SpatialQuery.Proofs.Lexical.Reading
import SpatialQuery.Proofs.Text.Trim
import SpatialQuery.Text.Quoted

/-!
Declared types in every spelling. A declaration has a schema or none, and a type and a reference system in parentheses
or none. It is read as it is meant unless a parenthesis stands in the name of its schema (`declared_read_iff`).
-/

namespace SpatialQuery.Geometry

/-! ## Declarations as databases write them -/

/-- The name of a schema. Quotes stand around it where it is not plain. -/
inductive SchemaName where
  | plain (name : List Char) (isPlain : isPlainName name = true)
  | quoted (name : List Char)

def SchemaName.text : SchemaName → List Char
  | plain name _ => name
  | quoted name => Text.quote '"' name

/-- What stands in the parentheses of a declaration. -/
structure Modifier where
  type : GeometryType
  /-- The letters that tell the dimension of the coordinates. -/
  dimension : List Char
  /-- The name of the type and its dimension, in any letter case. -/
  spelling : List Char
  srid : Option Int
  dimension_mem : dimension ∈ [] :: GeometryType.dimensions
  sameLetters_spelling : Text.sameLetters spelling (type.name.toList ++ dimension) = true
  srid_range : ∀ n ∈ srid, -0x80000000 ≤ n ∧ n ≤ 0x7FFFFFFF

def Modifier.text (m : Modifier) : List Char :=
  match m.srid with
  | none => m.spelling
  | some n => m.spelling ++ ',' :: Text.ofInt n

structure Declaration where
  schema : Option SchemaName
  name : List Char
  modifier : Option Modifier
  isPlain : isPlainName name = true

/-- The schema of a declaration with the dot behind it. -/
def qualifier : Option SchemaName → List Char
  | none => []
  | some schema => schema.text ++ ['.']

def parenthesized : Option Modifier → List Char
  | none => []
  | some m => '(' :: (m.text ++ [')'])

def Declaration.text (d : Declaration) : String :=
  String.ofList (qualifier d.schema ++ d.name ++ parenthesized d.modifier)

/-- The kind that a plain name stands for, in any letter case. -/
def Kind.named? (name : List Char) : Option Kind :=
  [geometry, geography].find? fun k => name.map Char.toLower == k.name.toList

/-- The reference system that is meant: 0 is an unknown one, and geographies that tell none have a usual one. -/
def Kind.sridOf : Kind → Option Int → Option Int
  | _, some 0 => none
  | _, some n => some n
  | geography, none => some 4326
  | geometry, none => none

/-- What a declaration says about a column; the dimension of the coordinates is no part of it. -/
def Declaration.meaning (d : Declaration) : Option Declared :=
  (Kind.named? d.name).map fun k =>
    ⟨k, (d.modifier.map Modifier.type).getD .geometry, k.sridOf (d.modifier.bind Modifier.srid)⟩

/-! ## Names -/

theorem isNamePart_iff {c : Char} : isNamePart c = true ↔ c.isAlpha = true ∨ c = '_' ∨ c.isDigit = true := by
  simp only [isNamePart, isNameStart, Bool.or_eq_true, beq_iff_eq, or_assoc]

theorem isBlank_of_namePart {c : Char} (h : isNamePart c = true) : Text.isBlank c = false := by
  apply Text.isBlank_of_printable
  rw [isNamePart_iff, Lexical.isAlpha_iff, Lexical.isDigit_iff] at h
  rcases h with h | rfl | h
  · omega
  · decide
  · omega

/-- A plain name has no dot, no quote and no parenthesis. -/
theorem ne_of_plain {name : List Char} (h : isPlainName name = true) {c d : Char} (hc : c ∈ name)
    (hd : isNamePart d = false) : c ≠ d := by
  rintro rfl
  rw [isNamePart_of_plain h c hc] at hd
  cases hd

theorem dropWhile_quotes {cs : List Char} (h : ∀ c ∈ cs, c ≠ '"') : cs.dropWhile (· == '"') = cs := by
  apply Lexical.dropWhile_exact (List.forall_mem_nil _)
  intro c hc
  exact beq_eq_false_iff_ne.2 (h c (List.mem_of_mem_head? hc))

/-- Schema and dot are no part of the name that is read. -/
theorem bareName_qualified (schema : Option SchemaName) {name : List Char} (h : isPlainName name = true) :
    bareName (qualifier schema ++ name) = name := by
  have hown : ((qualifier schema ++ name).reverse.takeWhile (· != '.')).reverse = name := by
    rw [List.reverse_append, Lexical.takeWhile_exact, List.reverse_reverse]
    · intro c hc
      exact bne_iff_ne.2 (ne_of_plain h (List.mem_reverse.1 hc) (by decide))
    · cases schema <;> simp [qualifier]
  have hquotes : ∀ c ∈ name, c ≠ '"' := fun c hc => ne_of_plain h hc (by decide)
  have hreverse : ∀ c ∈ name.reverse, c ≠ '"' := fun c hc => hquotes c (List.mem_reverse.1 hc)
  rw [bareName, hown, dropWhile_quotes hquotes, dropWhile_quotes hreverse, List.reverse_reverse]

theorem readKind?_qualified (schema : Option SchemaName) {name : List Char} (h : isPlainName name = true) :
    readKind? (qualifier schema ++ name) = Kind.named? name := by
  have hgeometry : "geometry".toList.map Char.toLower = Kind.geometry.name.toList := by decide
  have hgeography : "geography".toList.map Char.toLower = Kind.geography.name.toList := by decide
  rw [readKind?, bareName_qualified schema h, Text.sameLetters, Text.sameLetters, hgeometry, hgeography, Kind.named?]
  simp only [List.find?_cons, List.find?_nil]
  cases List.map Char.toLower name == Kind.geometry.name.toList with
  | true => rfl
  | false => cases List.map Char.toLower name == Kind.geography.name.toList <;> rfl

/-! ## Modifiers -/

theorem isAlpha_dimension {type : GeometryType} {dimension : List Char}
    (h : dimension ∈ [] :: GeometryType.dimensions) : ∀ c ∈ type.name.toList ++ dimension, c.isAlpha = true := by
  rw [← List.all_eq_true]
  revert dimension
  cases type <;> decide

theorem ofString?_dimension (type : GeometryType) {dimension : List Char}
    (h : dimension ∈ [] :: GeometryType.dimensions) :
    GeometryType.ofString? (String.ofList (type.name.toList ++ dimension)) = some type := by
  revert dimension
  cases type <;> decide +kernel

section Letters

variable {cs ds : List Char}

theorem isAlpha_of_sameLetters (h : Text.sameLetters cs ds = true) (hds : ∀ d ∈ ds, d.isAlpha = true) :
    ∀ c ∈ cs, c.isAlpha = true := by
  intro c hc
  have hmem : c.toLower ∈ ds.map Char.toLower := by
    rw [← eq_of_beq h]
    exact List.mem_map_of_mem hc
  obtain ⟨d, hd, heq⟩ := List.mem_map.1 hmem
  rw [← Char.isAlpha_toLower_eq_isAlpha, ← heq, Char.isAlpha_toLower_eq_isAlpha]
  exact hds d hd

theorem toUpper_of_sameLetters (h : Text.sameLetters cs ds = true) :
    cs.map Char.toUpper = ds.map Char.toUpper := by
  have hupper : Char.toUpper ∘ Char.toLower = Char.toUpper := by
    funext c
    exact Char.toUpper_toLower_eq_toUpper c
  have heq := congrArg (List.map Char.toUpper) (eq_of_beq h)
  rwa [List.map_map, List.map_map, hupper] at heq

/-- Letters are neither blank nor changed otherwise than to upper case. -/
theorem upperChars_letters (h : ∀ c ∈ cs, c.isAlpha = true) :
    Text.upperChars (cs.filter fun c => !Text.isBlank c) = cs.map Char.toUpper := by
  have hkeep : cs.filter (fun c => !Text.isBlank c) = cs := by
    rw [List.filter_eq_self]
    intro c hc
    rw [isBlank_of_namePart (isNamePart_iff.2 (.inl (h c hc)))]
    rfl
  have hupper : ∀ c ∈ cs, Text.upperOf c = [c.toUpper] := by
    intro c hc
    have hrange := Lexical.isAlpha_iff.1 (h c hc)
    rw [Text.upperOf, if_pos (by omega)]
  rw [hkeep, Text.upperChars, List.flatMap_congr hupper, List.map_eq_flatMap]

/-- The letter case of a type makes no difference. -/
theorem ofString?_sameLetters (h : Text.sameLetters cs ds = true) (hds : ∀ d ∈ ds, d.isAlpha = true) :
    GeometryType.ofString? (String.ofList cs) = GeometryType.ofString? (String.ofList ds) := by
  simp only [GeometryType.ofString?, String.toList_ofList, upperChars_letters hds,
    upperChars_letters (isAlpha_of_sameLetters h hds), toUpper_of_sameLetters h]

end Letters

theorem Modifier.isAlpha_spelling (m : Modifier) : ∀ c ∈ m.spelling, c.isAlpha = true :=
  isAlpha_of_sameLetters m.sameLetters_spelling (isAlpha_dimension m.dimension_mem)

theorem Modifier.ofString?_spelling (m : Modifier) :
    GeometryType.ofString? (String.ofList m.spelling) = some m.type := by
  rw [ofString?_sameLetters m.sameLetters_spelling (isAlpha_dimension m.dimension_mem),
    ofString?_dimension m.type m.dimension_mem]

theorem mem_ofInt {n : Int} : ∀ c ∈ Text.ofInt n, c = '-' ∨ c.isDigit = true := by
  rw [Text.ofInt]
  split
  · exact List.forall_mem_cons.2 ⟨.inl rfl, fun c hc => .inr (Text.isDigit_ofNat c hc)⟩
  · exact fun c hc => .inr (Text.isDigit_ofNat c hc)

theorem trimChars_ofInt (n : Int) : trimChars (Text.ofInt n) = Text.ofInt n := by
  have hblank : ∀ c ∈ Text.ofInt n, Text.isBlank c = false := by
    intro c hc
    apply Text.isBlank_of_printable
    rcases mem_ofInt c hc with rfl | hd
    · decide
    · rw [Lexical.isDigit_iff] at hd
      omega
  apply String.ofList_injective
  rw [trimChars, ← Text.trim_eq_self hblank, Text.trim, String.toList_ofList]

theorem readModifier?_text (m : Modifier) : readModifier? m.text = some (m.type, m.srid) := by
  have hspelling : ',' ∉ m.spelling := by
    intro hmem
    exact absurd (m.isAlpha_spelling _ hmem) (by decide)
  rw [readModifier?, Modifier.text]
  cases hsrid : m.srid with
  | none =>
    dsimp only
    rw [List.splitOn_eq_singleton hspelling]
    dsimp only
    rw [m.ofString?_spelling]
    rfl
  | some n =>
    have hcomma : ',' ∉ Text.ofInt n := by
      intro hmem
      rcases mem_ofInt _ hmem with h | h
      · cases h
      · exact absurd h (by decide)
    have hrange := m.srid_range n hsrid
    dsimp only
    rw [List.splitOn_append_cons_self_of_not_mem hspelling, List.splitOn_eq_singleton hcomma]
    dsimp only
    rw [m.ofString?_spelling, trimChars_ofInt, Text.readInt32, Text.readInteger_ofInt hrange.1 hrange.2]

theorem effectiveSrid_eq (k : Kind) (srid : Option Int) : effectiveSrid k srid = k.sridOf srid := by
  cases srid with
  | none => cases k <;> rfl
  | some n =>
    by_cases hn : n = 0
    · subst hn
      cases k <;> rfl
    · have hne : (n != 0) = true := bne_iff_ne.2 hn
      cases k <;> simp [effectiveSrid, Kind.sridOf, hn]

/-! ## Declarations -/

theorem exists_head_of_plain {name : List Char} (h : isPlainName name = true) :
    ∃ c cs, name = c :: cs ∧ Text.isBlank c = false := by
  cases name with
  | nil => cases h
  | cons c cs => exact ⟨c, cs, rfl, isBlank_of_namePart (isNamePart_of_plain h c List.mem_cons_self)⟩

namespace Declaration

/-- The declaration without its parentheses. -/
def typeName (d : Declaration) : List Char :=
  qualifier d.schema ++ d.name

theorem head?_typeName (d : Declaration) : ∃ c cs, d.typeName = c :: cs ∧ Text.isBlank c = false := by
  obtain ⟨c, cs, hname, hc⟩ := exists_head_of_plain d.isPlain
  unfold typeName
  cases d.schema with
  | none => exact ⟨c, cs, hname, hc⟩
  | some schema =>
    cases schema with
    | plain name h =>
      obtain ⟨c, cs, rfl, hc⟩ := exists_head_of_plain h
      exact ⟨c, _, rfl, hc⟩
    | quoted name => exact ⟨'"', _, rfl, by decide⟩

theorem getLast?_typeName (d : Declaration) : ∀ c ∈ d.typeName.getLast?, Text.isBlank c = false := by
  obtain ⟨c, cs, hname, -⟩ := exists_head_of_plain d.isPlain
  intro e he
  have hlast : e ∈ d.name.getLast? := by
    rwa [typeName, hname, List.getLast?_append_cons, ← hname] at he
  exact isBlank_of_namePart (isNamePart_of_plain d.isPlain e (List.mem_of_getLast? hlast))

theorem trim_typeName (d : Declaration) : Text.trim (String.ofList d.typeName) = String.ofList d.typeName := by
  obtain ⟨c, cs, heq, hc⟩ := d.head?_typeName
  apply Text.trim_of_ends
  · rw [heq]
    rintro _ ⟨⟩
    exact hc
  · exact d.getLast?_typeName

theorem trim_text (d : Declaration) : Text.trim d.text = d.text := by
  obtain ⟨c, cs, heq, hc⟩ := d.head?_typeName
  cases hm : d.modifier with
  | none =>
    rw [text, hm, parenthesized, List.append_nil]
    exact d.trim_typeName
  | some m =>
    rw [text, hm, ← typeName]
    apply Text.trim_of_ends
    · rw [heq]
      rintro _ ⟨⟩
      exact hc
    · rw [parenthesized, ← List.cons_append, ← List.append_assoc, List.getLast?_concat]
      rintro _ ⟨⟩
      decide

theorem trimChars_typeName (d : Declaration) : trimChars d.typeName = d.typeName := by
  apply String.ofList_injective
  rw [trimChars, ← d.trim_typeName, Text.trim, String.toList_ofList]

theorem no_parenthesis {d : Declaration} (h : '(' ∉ qualifier d.schema) : ∀ c ∈ d.typeName, (c != '(') = true := by
  intro c hc
  rw [bne_iff_ne]
  rcases List.mem_append.1 hc with hq | hn
  · rintro rfl
    exact h hq
  · exact ne_of_plain d.isPlain hn (by decide)

/-- A declaration is read as it is meant if its first parenthesis is the one of its modifier. -/
theorem read?_text {d : Declaration} (h : '(' ∉ qualifier d.schema) : Declared.read? d.text = d.meaning := by
  have hno := d.no_parenthesis h
  have hstop : ∀ c ∈ (parenthesized d.modifier).head?, (c != '(') = false := by
    cases d.modifier with
    | none => simp [parenthesized]
    | some m => simp [parenthesized]
  have hkind : readKind? d.typeName = Kind.named? d.name := readKind?_qualified d.schema d.isPlain
  rw [Declared.read?, trim_text, text, ← typeName, String.toList_ofList, Lexical.takeWhile_exact hno hstop,
    Lexical.dropWhile_exact hno hstop, meaning]
  cases d.modifier with
  | none =>
    dsimp only [parenthesized]
    rw [hkind]
    exact congrArg (Option.map · (Kind.named? d.name)) (funext fun k => by rw [effectiveSrid_eq]; rfl)
  | some m =>
    dsimp only [parenthesized]
    rw [List.getLast?_concat, List.dropLast_concat, trimChars_typeName, hkind, readModifier?_text]
    cases Kind.named? d.name with
    | none => rfl
    | some k =>
      dsimp only [Option.map_some, Option.getD_some, Option.bind_some]
      rw [effectiveSrid_eq]
      rfl

/-- Behind a parenthesis in the name of the schema, a closing one is missed. -/
theorem read?_unmodified {d : Declaration} (hd : d.modifier = none) (h : '(' ∈ qualifier d.schema) :
    Declared.read? d.text = none := by
  obtain ⟨before, behind, hsplit, hbefore⟩ := List.eq_append_cons_of_mem h
  obtain ⟨c, cs, hname, -⟩ := exists_head_of_plain d.isPlain
  have hno : ∀ e ∈ before, (e != '(') = true := by
    intro e he
    rw [bne_iff_ne]
    rintro rfl
    exact hbefore he
  have hlast : (behind ++ d.name).getLast? ≠ some ')' := by
    rw [hname, List.getLast?_append_cons, ← hname]
    intro he
    exact absurd (isNamePart_of_plain d.isPlain _ (List.mem_of_getLast? he)) (by decide)
  rw [Declared.read?, trim_text, text, hd, hsplit, parenthesized, List.append_nil, String.toList_ofList,
    List.append_assoc, List.cons_append, Lexical.dropWhile_exact hno (by simp)]
  dsimp only
  rw [if_pos (bne_iff_ne.2 hlast)]

end Declaration

/-- The declarations with a given schema are read as they are meant exactly if no parenthesis stands in its name. -/
theorem declared_read_iff (schema : Option SchemaName) :
    (∀ d : Declaration, d.schema = schema → Declared.read? d.text = d.meaning) ↔ '(' ∉ qualifier schema := by
  constructor
  · intro h hmem
    have hread := h ⟨schema, "geometry".toList, none, by decide⟩ rfl
    rw [Declaration.read?_unmodified rfl hmem] at hread
    cases hread
  · rintro h d rfl
    exact Declaration.read?_text h

/-- Points in a type of a schema whose name has parentheses. -/
def pointsBehindParenthesis : Declaration where
  schema := some (.quoted "gis(old)".toList)
  name := "geometry".toList
  modifier := some ⟨.point, [], "Point".toList, some 4326, by decide, by decide, by decide⟩
  isPlain := by decide

/-- A type that is not spatial, in a schema whose name looks like a spatial type. -/
def topologyBehindParenthesis : Declaration where
  schema := some (.quoted "geometry(Point,5,x)".toList)
  name := "topology".toList
  modifier := some ⟨.point, [], "Point".toList, some 4326, by decide, by decide, by decide⟩
  isPlain := by decide

/-- A spatial type is missed, and another type is read as a spatial one. -/
theorem declared_parenthesis :
    pointsBehindParenthesis.text = "\"gis(old)\".geometry(Point,4326)" ∧
      Declared.read? pointsBehindParenthesis.text = none ∧
      pointsBehindParenthesis.meaning = some ⟨.geometry, .point, some 4326⟩ ∧
    topologyBehindParenthesis.text = "\"geometry(Point,5,x)\".topology(Point,4326)" ∧
      Declared.read? topologyBehindParenthesis.text = some ⟨.geometry, .point, some 5⟩ ∧
      topologyBehindParenthesis.meaning = none := by
  refine ⟨?_, ?_, ?_, ?_, ?_, ?_⟩
  all_goals decide +kernel

end SpatialQuery.Geometry
