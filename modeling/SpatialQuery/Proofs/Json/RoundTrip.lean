import Mathlib.Data.List.DropRight
import SpatialQuery.Proofs.Json.Range

/-!
What is read of JSON text that was written of a value (`read?_chars`): numbers that are not whole may change, numbers
that are not finite become `null`, and containers that are nested too deeply cannot be read (`reread`). The value itself
is read (`read?_pretty`, `read?_compact`) if its whole numbers have 64 bits, its other numbers are read back as they
are, and its containers are not nested too deeply (`Writable`).
-/

namespace SpatialQuery.Json

/-- The number is read from its text. A number that is not finite never is: it has no text of its own. -/
def ReadsBack (x : Float) : Prop :=
  read? (compact (.float x)) = some (.float x)

mutual

/-- With `depth` containers around it, the value can be written so that it is read back. -/
def Writable (depth : Nat) : Json → Prop
  | null | bool _ | str _ => True
  | int i => -0x8000000000000000 ≤ i ∧ i ≤ Text.maxNat64
  | float x => ReadsBack x
  | arr items => depth < maxDepth ∧ WritableItems (depth + 1) items
  | obj fields => depth < maxDepth ∧ WritableFields (depth + 1) fields
  | unreadable => False

def WritableItems (depth : Nat) : List Json → Prop
  | [] => True
  | j :: js => Writable depth j ∧ WritableItems depth js

def WritableFields (depth : Nat) : List (String × Json) → Prop
  | [] => True
  | (_, j) :: fs => Writable depth j ∧ WritableFields depth fs

end

mutual

/-- What is read of the value when it is written with `depth` containers around it. -/
def reread (depth : Nat) : Json → Json
  | null | unreadable => null
  | bool b => bool b
  | int i => Numeral.toJson ⟨decide (i < 0), Text.ofNat i.natAbs, none, none⟩
  | float x => (read? (compact (.float x))).getD .unreadable
  | str s => str s
  | arr items => unlessTooDeep (depth + 1) (.arr (rereadItems (depth + 1) items))
  | obj fields => unlessTooDeep (depth + 1) (.obj (rereadFields (depth + 1) fields))

def rereadItems (depth : Nat) : List Json → List Json
  | [] => []
  | j :: js => reread depth j :: rereadItems depth js

def rereadFields (depth : Nat) : List (String × Json) → List (String × Json)
  | [] => []
  | (n, j) :: fs => (n, reread depth j) :: rereadFields depth fs

end

/-! ## Steps of reading -/

theorem skipSpace_append {blanks : List Char} (h : ∀ c ∈ blanks, isSpace c = true) (cs : List Char) :
    skipSpace (blanks ++ cs) = skipSpace cs :=
  List.dropWhile_append_of_pos h

theorem skipSpace_cons {c : Char} (h : isSpace c = false) (cs : List Char) : skipSpace (c :: cs) = c :: cs := by
  simp [skipSpace, h]

theorem skipSpace_skipSpace (cs : List Char) : skipSpace (skipSpace cs) = skipSpace cs :=
  List.dropWhile_idempotent _ cs

theorem isSpace_lineBreak (pretty : Bool) (level : Nat) : ∀ c ∈ lineBreak pretty level, isSpace c = true := by
  cases pretty with
  | false => exact List.forall_mem_nil _
  | true =>
    refine List.forall_mem_cons.2 ⟨rfl, fun c hc => ?_⟩
    rw [List.eq_of_mem_replicate hc]
    rfl

/-- What stands between a name and its value. -/
theorem isSpace_gap (pretty : Bool) : ∀ c ∈ (if pretty then [' '] else []), isSpace c = true := by
  cases pretty with
  | false => exact List.forall_mem_nil _
  | true => exact List.forall_mem_singleton.2 rfl

section Steps

variable {fuel depth : Nat} {cs : List Char}

theorem readValue_string (s : String) (rest : List Char) :
    readValue (fuel + 1) depth (stringText s ++ rest) = some (.str s, rest) := by
  rw [stringText, List.cons_append, List.cons_append, List.append_assoc, readValue, skipSpace_cons rfl]
  change (readString (s.toList.flatMap escape ++ '"' :: rest)).map _ = _
  rw [readString_escaped]
  rfl

theorem isSpace_of_number {c : Char} (h : c = '-' ∨ c.isDigit = true) : isSpace c = false := by
  simp only [isSpace, Bool.or_eq_false_iff, beq_eq_false_iff_ne]
  refine ⟨⟨⟨?_, ?_⟩, ?_⟩, ?_⟩ <;> rintro rfl <;> exact absurd h (by decide)

theorem readValue_number {n : Numeral} {rest : List Char} (h : Numeral.read cs = some (n, rest)) :
    readValue (fuel + 1) depth cs = some (n.toJson, rest) := by
  obtain ⟨c, ds, rfl, hc⟩ := Numeral.head_of_read h
  rw [readValue, skipSpace_cons (isSpace_of_number hc)]
  split
  case h_7 => rw [h, Option.map_some]
  all_goals
    rename_i heq
    cases heq
    exact absurd hc (by decide)

theorem objectOf_some (fields : List (String × Json)) :
    objectOf (fields.map fun f => (some f.1, f.2)) = .obj fields := by
  have h : (fields.map fun f => (some f.1, f.2)).mapM (fun f => f.1.map (·, f.2)) = some fields := by
    induction fields with
    | nil => rfl
    | cons f fs ih => rw [List.map_cons, List.mapM_cons, ih]; rfl
  rw [objectOf, h]

theorem readValue_array {items : List Json} {rest : List Char} (hopen : ∀ c ∈ (skipSpace cs).head?, c ≠ ']')
    (h : readItems fuel (depth + 1) cs = some (items, rest)) :
    readValue (fuel + 1) depth ('[' :: cs) = some (unlessTooDeep (depth + 1) (.arr items), rest) := by
  rw [readItems_congr (skipSpace_skipSpace cs).symm] at h
  rw [readValue, skipSpace_cons rfl]
  split
  case h_5 heq =>
    cases heq
    split
    · rename_i hclose
      rw [hclose] at hopen
      exact absurd rfl (hopen ']' rfl)
    · rw [h, Option.map_some]
  case h_7 hno _ => exact (hno cs rfl).elim
  all_goals
    rename_i heq
    cases heq

theorem readValue_object {fields : List (String × Json)} {rest : List Char}
    (hopen : ∀ c ∈ (skipSpace cs).head?, c ≠ '\x7d')
    (h : readFields fuel (depth + 1) cs = some (fields.map fun f => (some f.1, f.2), rest)) :
    readValue (fuel + 1) depth ('\x7b' :: cs) = some (unlessTooDeep (depth + 1) (.obj fields), rest) := by
  rw [readFields_congr (skipSpace_skipSpace cs).symm] at h
  rw [readValue, skipSpace_cons rfl]
  split
  case h_6 heq =>
    cases heq
    split
    · rename_i hclose
      rw [hclose] at hopen
      exact absurd rfl (hopen '\x7d' rfl)
    · rw [h, Option.map_some]
      dsimp only
      rw [objectOf_some]
  case h_7 hno => exact (hno cs rfl).elim
  all_goals
    rename_i heq
    cases heq

/-- The value stands in front of the text, up to blanks. -/
def Reads (fuel depth : Nat) (cs : List Char) (j : Json) (t : List Char) : Prop :=
  ∃ rest, readValue fuel depth cs = some (j, rest) ∧ skipSpace rest = skipSpace t

theorem Reads.of_eq {j : Json} {t : List Char} (h : readValue fuel depth cs = some (j, t)) :
    Reads fuel depth cs j t :=
  ⟨t, h, rfl⟩

theorem Reads.congr {j : Json} {t ds : List Char} (h : Reads fuel depth cs j t)
    (hds : skipSpace ds = skipSpace cs) : Reads fuel depth ds j t := by
  rwa [Reads, readValue_congr hds]

theorem skipSpace_skipSpace_append (cs t : List Char) : skipSpace (skipSpace cs ++ t) = skipSpace (cs ++ t) := by
  have h := @skipSpace_append (cs.takeWhile isSpace) (fun _ => List.mem_takeWhile_imp) (skipSpace cs ++ t)
  rw [← h, ← List.append_assoc]
  exact congrArg (fun ds => skipSpace (ds ++ t)) List.takeWhile_append_dropWhile

theorem reads_number {n : Numeral} {rest t : List Char} (h : Numeral.read (skipSpace cs) = some (n, rest))
    (hrest : skipSpace rest = []) (ht : Ends t) : Reads (fuel + 1) depth (cs ++ t) n.toJson t := by
  have hread : readValue (fuel + 1) depth _ = _ := readValue_number (Numeral.read_append h fun _ => ht)
  refine ⟨rest ++ t, ?_, skipSpace_append (List.dropWhile_eq_nil_iff.1 hrest) t⟩
  rwa [readValue_congr (skipSpace_skipSpace_append cs t)] at hread

section Containers

variable {j : Json} {rest : List Char}

theorem readItems_last {blanks : List Char} (hblanks : ∀ c ∈ blanks, isSpace c = true)
    (h : Reads fuel depth cs j (blanks ++ ']' :: rest)) :
    readItems (fuel + 1) depth cs = some ([j], rest) := by
  obtain ⟨t, hread, ht⟩ := h
  rw [skipSpace_append hblanks, skipSpace_cons rfl] at ht
  rw [readItems, hread]
  dsimp only
  rw [ht]
  rfl

theorem readItems_more {ds : List Char} {js : List Json} (h : Reads fuel depth cs j (',' :: ds))
    (hds : readItems fuel depth ds = some (js, rest)) :
    readItems (fuel + 1) depth cs = some (j :: js, rest) := by
  obtain ⟨t, hread, ht⟩ := h
  rw [skipSpace_cons rfl] at ht
  rw [readItems, hread]
  dsimp only
  rw [ht]
  change (readItems fuel depth ds).map _ = _
  rw [hds, Option.map_some]

/-- What is read behind a name: its value, and more fields. -/
def readNamed (fuel depth : Nat) (name : String) (cs : List Char) :
    Option (List (Option String × Json) × List Char) :=
  match readValue fuel depth cs with
  | none => none
  | some (j, cs) =>
    match skipSpace cs with
    | ',' :: cs => (readFields fuel depth cs).map fun (fields, rest) => ((some name, j) :: fields, rest)
    | '\x7d' :: cs => some ([(some name, j)], cs)
    | _ => none

theorem readFields_name (name : String) (cs : List Char) :
    readFields (fuel + 1) depth (stringText name ++ ':' :: cs) = readNamed fuel depth name cs := by
  rw [stringText, List.cons_append, List.cons_append, List.append_assoc, List.singleton_append, readFields,
    skipSpace_cons rfl]
  simp only [readString_escaped, skipSpace_cons (c := ':') rfl]
  rfl

theorem readFields_last (name : String) {blanks : List Char} (hblanks : ∀ c ∈ blanks, isSpace c = true)
    (h : Reads fuel depth cs j (blanks ++ '\x7d' :: rest)) :
    readFields (fuel + 1) depth (stringText name ++ ':' :: cs) = some ([(some name, j)], rest) := by
  obtain ⟨t, hread, ht⟩ := h
  rw [skipSpace_append hblanks, skipSpace_cons rfl] at ht
  rw [readFields_name, readNamed, hread]
  dsimp only
  rw [ht]
  rfl

theorem readFields_more (name : String) {ds : List Char} {fs : List (Option String × Json)}
    (h : Reads fuel depth cs j (',' :: ds)) (hds : readFields fuel depth ds = some (fs, rest)) :
    readFields (fuel + 1) depth (stringText name ++ ':' :: cs) = some ((some name, j) :: fs, rest) := by
  obtain ⟨t, hread, ht⟩ := h
  rw [skipSpace_cons rfl] at ht
  rw [readFields_name, readNamed, hread]
  dsimp only
  rw [ht]
  change (readFields fuel depth ds).map _ = _
  rw [hds, Option.map_some]

end Containers

end Steps

/-! ## Whole values -/

theorem ends_cons {c : Char} (cs : List Char) (h : c.isDigit = false ∧ c ≠ '.' ∧ c ≠ 'e' ∧ c ≠ 'E') :
    Ends (c :: cs) := by
  rintro _ ⟨⟩
  exact h

theorem ends_lineBreak (pretty : Bool) (level : Nat) {cs : List Char} (h : Ends cs) :
    Ends (lineBreak pretty level ++ cs) := by
  cases pretty with
  | false => exact h
  | true => exact ends_cons _ (by decide)

section Values

variable {depth level level' : Nat} {pretty : Bool} {t : List Char}

theorem read_float {x : Float} (h : x.isFinite = true) : ∃ n y, n.toJson = .float y ∧
    ∀ pretty level, Numeral.read (skipSpace (chars pretty level (.float x))) = some (n, []) := by
  obtain ⟨n, y, hread, hy⟩ := Numeral.read_text h
  obtain ⟨c, cs, hcs, hc⟩ := Numeral.head_of_read hread
  refine ⟨n, y, hy, fun pretty level => ?_⟩
  rwa [chars, if_pos h, hcs, skipSpace_cons (isSpace_of_number hc), ← hcs]

theorem read_int (pretty : Bool) (level : Nat) (i : Int) : Numeral.read (skipSpace (chars pretty level (.int i))) =
    some (⟨decide (i < 0), Text.ofNat i.natAbs, none, none⟩, []) := by
  have hread := Numeral.read_ofInt i
  obtain ⟨c, cs, hcs, hc⟩ := Numeral.head_of_read hread
  rwa [chars, hcs, skipSpace_cons (isSpace_of_number hc), ← hcs]

theorem chars_arr (j : Json) (js : List Json) : chars pretty level (.arr (j :: js)) =
    '[' :: itemChars pretty (level + 1) (j :: js) ++ lineBreak pretty level ++ [']'] := rfl

theorem chars_obj (f : String × Json) (fs : List (String × Json)) : chars pretty level (.obj (f :: fs)) =
    '\x7b' :: fieldChars pretty (level + 1) (f :: fs) ++ lineBreak pretty level ++ ['\x7d'] := rfl

/-- No value starts with a bracket that closes. -/
theorem head_chars (j : Json) (t : List Char) :
    ∀ c ∈ (skipSpace (chars pretty level j ++ t)).head?, c ≠ ']' := by
  have hnumber : ∀ {cs rest : List Char} {n : Numeral}, Numeral.read (skipSpace cs) = some (n, rest) →
      ∀ c ∈ (skipSpace (cs ++ t)).head?, c ≠ ']' := by
    intro cs rest n hread
    obtain ⟨d, ds, hds, hd⟩ := Numeral.head_of_read hread
    rw [← skipSpace_skipSpace_append, hds, List.cons_append, skipSpace_cons (isSpace_of_number hd)]
    rintro _ ⟨⟩ rfl
    exact absurd hd (by decide)
  cases j with
  | null => rintro _ ⟨⟩; decide
  | bool b => cases b <;> (rintro _ ⟨⟩; decide)
  | int i => exact hnumber (read_int pretty level i)
  | float x =>
    by_cases h : x.isFinite = true
    · obtain ⟨n, y, -, hread⟩ := read_float h
      exact hnumber (hread pretty level)
    · rw [chars, if_neg h]
      rintro _ ⟨⟩
      decide
  | str s => rintro _ ⟨⟩; decide
  | arr items => cases items <;> (rintro _ ⟨⟩; decide)
  | obj fields => cases fields <;> (rintro _ ⟨⟩; decide)
  | unreadable => rintro _ ⟨⟩; decide

theorem ends_blanks {blanks : List Char} (h : ∀ c ∈ blanks, isSpace c = true) : Ends blanks := by
  intro c hc
  have hspace := h c (List.mem_of_mem_head? hc)
  simp only [isSpace, Bool.or_eq_true, beq_iff_eq] at hspace
  rcases hspace with ((rfl | rfl) | rfl) | rfl <;> decide

theorem read?_of_reads {cs blanks : List Char} {j : Json} (hblanks : ∀ c ∈ blanks, isSpace c = true)
    (h : Reads (2 * (cs ++ blanks).length + 1) 0 (cs ++ blanks) j blanks) :
    read? (String.ofList (cs ++ blanks)) = some j := by
  obtain ⟨rest, hread, hrest⟩ := h
  rw [read?, String.toList_ofList, hread]
  dsimp only
  rw [hrest, skipSpace, List.dropWhile_eq_nil_iff.2 hblanks]
  rfl

theorem reread_infinite {x : Float} (h : x.isFinite = false) (depth : Nat) : reread depth (.float x) = .null := by
  rw [reread, compact, chars, h, if_neg Bool.false_ne_true]
  rfl

theorem reread_finite {x : Float} {n : Numeral}
    (h : ∀ pretty level, Numeral.read (skipSpace (chars pretty level (.float x))) = some (n, [])) (depth : Nat) :
    reread depth (.float x) = n.toJson := by
  have hreads := read?_of_reads (List.forall_mem_nil _) (reads_number (h false 0) rfl ends_nil)
  rw [List.append_nil] at hreads
  rw [reread, compact, hreads]
  rfl

/-- What is read of a number that is not whole; nothing if it is not finite. -/
def rereadFloat? (x : Float) : Option Float :=
  (reread 0 (.float x)).asFloat?

theorem reread_float (x : Float) (depth : Nat) :
    reread depth (.float x) = ((rereadFloat? x).map Json.float).getD .null := by
  unfold rereadFloat?
  cases h : x.isFinite with
  | true =>
    obtain ⟨n, y, hy, hread⟩ := read_float h
    rw [reread_finite hread, reread_finite hread, hy]
    rfl
  | false =>
    rw [reread_infinite h, reread_infinite h]
    rfl

/-- A number that is not whole is read alike wherever it stands. -/
theorem reads_float {fuel : Nat} (x : Float) (ht : Ends t) :
    Reads (fuel + 1) depth (chars pretty level (.float x) ++ t) (reread depth (.float x)) t := by
  cases h : x.isFinite with
  | true =>
    obtain ⟨n, y, -, hread⟩ := read_float h
    rw [reread_finite hread]
    exact reads_number (hread pretty level) rfl ht
  | false =>
    rw [reread_infinite h, chars, h, if_neg Bool.false_ne_true]
    exact .of_eq rfl

mutual

theorem reads_chars : (j : Json) → ∀ {depth fuel level : Nat} {t : List Char},
    2 * (chars pretty level j).length ≤ fuel → Ends t →
      Reads (fuel + 1) depth (chars pretty level j ++ t) (reread depth j) t
  | .null, _, _, _, _, _, _ => .of_eq rfl
  | .unreadable, _, _, _, _, _, _ => .of_eq rfl
  | .bool true, _, _, _, _, _, _ => .of_eq rfl
  | .bool false, _, _, _, _, _, _ => .of_eq rfl
  | .int i, depth, fuel, level, _, _, ht => reads_number (read_int pretty level i) rfl ht
  | .float x, _, _, _, _, _, ht => reads_float x ht
  | .str s, _, _, _, t, _, _ => .of_eq (readValue_string s t)
  | .arr [], _, _, _, _, _, _ => .of_eq rfl
  | .arr (j :: js), depth, fuel, level, t, hf, _ => by
    rw [chars_arr] at hf ⊢
    simp only [List.length_cons, List.length_append] at hf
    obtain ⟨fuel, rfl⟩ := Nat.exists_eq_succ_of_ne_zero (n := fuel) (by omega)
    have hitems := @readItems_chars (j :: js) (depth + 1) fuel (level + 1) level t (List.cons_ne_nil _ _) (by omega)
    -- the list is not empty, so its bracket is not closed at once
    have hopen : ∀ c ∈ (skipSpace (itemChars pretty (level + 1) (j :: js) ++
        (lineBreak pretty level ++ ']' :: t))).head?, c ≠ ']' := by
      rw [itemChars, List.append_assoc, List.append_assoc, skipSpace_append (isSpace_lineBreak pretty (level + 1))]
      exact head_chars j _
    simp only [List.cons_append, List.append_assoc, List.nil_append]
    exact .of_eq (readValue_array hopen hitems)
  | .obj [], _, _, _, _, _, _ => .of_eq rfl
  | .obj ((n, j) :: fs), depth, fuel, level, t, hf, _ => by
    rw [chars_obj] at hf ⊢
    simp only [List.length_cons, List.length_append] at hf
    obtain ⟨fuel, rfl⟩ := Nat.exists_eq_succ_of_ne_zero (n := fuel) (by omega)
    have hfields := @readFields_chars ((n, j) :: fs) (depth + 1) fuel (level + 1) level t (List.cons_ne_nil _ _)
      (by omega)
    have hopen : ∀ c ∈ (skipSpace (fieldChars pretty (level + 1) ((n, j) :: fs) ++
        (lineBreak pretty level ++ '\x7d' :: t))).head?, c ≠ '\x7d' := by
      simp only [fieldChars, List.append_assoc, skipSpace_append (isSpace_lineBreak pretty (level + 1))]
      rintro _ ⟨⟩
      decide
    simp only [List.cons_append, List.append_assoc, List.nil_append]
    exact .of_eq (readValue_object hopen hfields)

theorem readItems_chars : (js : List Json) → ∀ {depth fuel level level' : Nat} {t : List Char},
    js ≠ [] → 2 * (itemChars pretty level js).length + 1 ≤ fuel →
      readItems (fuel + 1) depth (itemChars pretty level js ++ (lineBreak pretty level' ++ ']' :: t)) =
        some (rereadItems depth js, t)
  | [], _, _, _, _, _, hne, _ => absurd rfl hne
  | [j], depth, fuel, level, level', t, _, hf => by
    rw [itemChars] at hf ⊢
    simp only [List.length_append] at hf
    obtain ⟨fuel, rfl⟩ := Nat.exists_eq_succ_of_ne_zero (n := fuel) (by omega)
    have hread := @reads_chars j depth fuel level (lineBreak pretty level' ++ ']' :: t) (by omega)
      (ends_lineBreak pretty level' (ends_cons t (by decide)))
    refine readItems_last (isSpace_lineBreak pretty level') (hread.congr ?_)
    simp only [List.append_assoc, skipSpace_append (isSpace_lineBreak pretty level)]
    rfl
  | j :: k :: js, depth, fuel, level, level', t, _, hf => by
    rw [itemChars] at hf ⊢
    simp only [List.length_append, List.isEmpty_cons, Bool.false_eq_true, ↓reduceIte, List.length_cons] at hf
    obtain ⟨fuel, rfl⟩ := Nat.exists_eq_succ_of_ne_zero (n := fuel) (by omega)
    have hmore := @readItems_chars (k :: js) depth fuel level level' t (List.cons_ne_nil _ _) (by omega)
    have hread := @reads_chars j depth fuel level (',' :: (itemChars pretty level (k :: js) ++
      (lineBreak pretty level' ++ ']' :: t))) (by omega) (ends_cons _ (by decide))
    refine readItems_more (hread.congr ?_) hmore
    simp only [List.append_assoc, skipSpace_append (isSpace_lineBreak pretty level)]
    rfl

theorem readFields_chars : (fs : List (String × Json)) → ∀ {depth fuel level level' : Nat} {t : List Char},
    fs ≠ [] → 2 * (fieldChars pretty level fs).length + 1 ≤ fuel →
      readFields (fuel + 1) depth (fieldChars pretty level fs ++ (lineBreak pretty level' ++ '\x7d' :: t)) =
        some ((rereadFields depth fs).map fun (n, j) => (some n, j), t)
  | [], _, _, _, _, _, hne, _ => absurd rfl hne
  | [(n, j)], depth, fuel, level, level', t, _, hf => by
    rw [fieldChars] at hf ⊢
    simp only [List.length_append, List.length_cons] at hf
    obtain ⟨fuel, rfl⟩ := Nat.exists_eq_succ_of_ne_zero (n := fuel) (by omega)
    have hread := @reads_chars j depth fuel level (lineBreak pretty level' ++ '\x7d' :: t) (by omega)
      (ends_lineBreak pretty level' (ends_cons t (by decide)))
    have hlast := readFields_last n (isSpace_lineBreak pretty level')
      (hread.congr (skipSpace_append (isSpace_gap pretty) _))
    rw [← readFields_congr (skipSpace_append (isSpace_lineBreak pretty level) _)] at hlast
    simp only [List.append_assoc, List.cons_append]
    exact hlast
  | (n, j) :: f :: fs, depth, fuel, level, level', t, _, hf => by
    rw [fieldChars] at hf ⊢
    simp only [List.length_append, List.isEmpty_cons, Bool.false_eq_true, ↓reduceIte, List.length_cons] at hf
    obtain ⟨fuel, rfl⟩ := Nat.exists_eq_succ_of_ne_zero (n := fuel) (by omega)
    have hrest := @readFields_chars (f :: fs) depth fuel level level' t (List.cons_ne_nil _ _) (by omega)
    have hread := @reads_chars j depth fuel level (',' :: (fieldChars pretty level (f :: fs) ++
      (lineBreak pretty level' ++ '\x7d' :: t))) (by omega) (ends_cons _ (by decide))
    have hmore := readFields_more n (hread.congr (skipSpace_append (isSpace_gap pretty) _)) hrest
    rw [← readFields_congr (skipSpace_append (isSpace_lineBreak pretty level) _)] at hmore
    simp only [List.append_assoc, List.cons_append]
    exact hmore

end

theorem read?_chars (pretty : Bool) (j : Json) {blanks : List Char} (hblanks : ∀ c ∈ blanks, isSpace c = true) :
    read? (String.ofList (chars pretty 0 j ++ blanks)) = some (reread 0 j) := by
  have hlength : 2 * (chars pretty 0 j).length ≤ 2 * (chars pretty 0 j ++ blanks).length := by
    rw [List.length_append]
    omega
  exact read?_of_reads hblanks (reads_chars j hlength (ends_blanks hblanks))

end Values

/-! ## Values that are read back -/

mutual

theorem reread_writable : (j : Json) → ∀ {depth : Nat}, Writable depth j → reread depth j = j
  | .null, _, _ => rfl
  | .bool _, _, _ => rfl
  | .str _, _, _ => rfl
  | .int _, _, h => Numeral.toJson_ofInt h.1 h.2
  | .float x, _, h => by
    rw [reread, h]
    rfl
  | .arr items, _, h => by
    rw [reread, unlessTooDeep, if_pos (Nat.succ_le_of_lt h.1), rereadItems_writable items h.2]
  | .obj fields, _, h => by
    rw [reread, unlessTooDeep, if_pos (Nat.succ_le_of_lt h.1), rereadFields_writable fields h.2]
  | .unreadable, _, h => h.elim

theorem rereadItems_writable : (js : List Json) → ∀ {depth : Nat}, WritableItems depth js → rereadItems depth js = js
  | [], _, _ => rfl
  | j :: js, _, h => by rw [rereadItems, reread_writable j h.1, rereadItems_writable js h.2]

theorem rereadFields_writable : (fs : List (String × Json)) → ∀ {depth : Nat}, WritableFields depth fs →
    rereadFields depth fs = fs
  | [], _, _ => rfl
  | (n, j) :: fs, _, h => by rw [rereadFields, reread_writable j h.1, rereadFields_writable fs h.2]

end

/-- A value is read from what is written of it, with or without line breaks. -/
theorem read?_compact {j : Json} (h : Writable 0 j) : read? j.compact = some j := by
  have hread := read?_chars false j (List.forall_mem_nil _)
  rwa [List.append_nil, reread_writable j h] at hread

theorem read?_reread (j : Json) {blanks : String} (hblanks : ∀ c ∈ blanks.toList, isSpace c = true) :
    read? (j.pretty ++ blanks) = some (reread 0 j) := by
  have hread := read?_chars true j hblanks
  rwa [String.ofList_append, String.ofList_toList] at hread

theorem read?_pretty {j : Json} (h : Writable 0 j) {blanks : String} (hblanks : ∀ c ∈ blanks.toList, isSpace c = true) :
    read? (j.pretty ++ blanks) = some j := by
  rw [read?_reread j hblanks, reread_writable j h]

end SpatialQuery.Json
