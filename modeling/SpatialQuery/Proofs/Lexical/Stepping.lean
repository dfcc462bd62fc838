import SpatialQuery.Proofs.Lexical.Bytewise
import SpatialQuery.Proofs.Lexical.Surrounding

/-!
The scan by bytes stops where the scan by characters stops. Its position is followed along the text that lies ahead of
it (`Ahead`). It may stand inside of a character only where a token goes on: none of the bytes of a character outside of
ASCII is a mark, so that they are passed one by one (`Ahead.pass`).
-/

namespace SpatialQuery.Bytewise

open Token Text

/-! ## Characters of ASCII and others -/

theorem toNat_ofUInt8 (b : UInt8) : (Char.ofUInt8 b).toNat = b.toNat := rfl

theorem ofUInt8_toUInt8 {c : Char} (h : c.toNat < 128) : Char.ofUInt8 c.toUInt8 = c := by
  apply Char.toNat_inj.1
  show c.toNat % 256 = c.toNat
  exact Nat.mod_eq_of_lt (by omega)

theorem add_byteSize {c : Char} (h : c.toNat < 128) (pos : Nat) (cs : List Char) :
    pos + Scan.byteSize (c :: cs) = pos + 1 + Scan.byteSize cs := by
  rw [byteSize_cons, (utf8EncodeChar_ascii h).2, Nat.add_assoc]

/-- What holds of no other character. -/
theorem ascii_of_wide {p : Char → Bool} (hp : ∀ c : Char, 128 ≤ c.toNat → p c = false) {c : Char} (h : p c = true) :
    c.toNat < 128 := by
  by_contra hc
  rw [hp c (Nat.le_of_not_lt hc)] at h
  cases h

theorem beq_of_wide {b q : Char} (hb : 128 ≤ b.toNat) (hq : q.toNat < 128) : (b == q) = false := by
  rw [beq_eq_false_iff_ne]
  rintro rfl
  omega

theorem isSpace_wide (c : Char) (h : 128 ≤ c.toNat) : isSpace c = false := by
  simp [isSpace, beq_of_wide h]

theorem isSign_wide (c : Char) (h : 128 ≤ c.toNat) : isSign c = false := by
  rw [isSign, beq_of_wide h (by decide), beq_of_wide h (by decide)]
  rfl

theorem isDigit_wide (c : Char) (h : 128 ≤ c.toNat) : c.isDigit = false := by
  rw [Bool.eq_false_iff]
  intro hd
  have := Lexical.isDigit_iff.1 hd
  omega

theorem isTagPart_wide (c : Char) (h : 128 ≤ c.toNat) : isTagPart c = false := by
  have halpha : c.isAlpha = false := by
    rw [Bool.eq_false_iff]
    intro ha
    have := Lexical.isAlpha_iff.1 ha
    omega
  rw [isTagPart, beq_of_wide h (by decide), halpha, isDigit_wide c h]
  rfl

theorem isWordStart_wide (c : Char) (h : 128 ≤ c.toNat) : isWordStart c = true := by
  rw [isWordStart, Bool.or_eq_true]
  exact .inr (decide_eq_true h)

theorem isWordPart_wide (c : Char) (h : 128 ≤ c.toNat) : isWordPart c = true := by
  rw [isWordPart, isWordStart_wide c h]
  rfl

/-- The characters outside of ASCII are alike. -/
def Uniform (p : Char → Bool) : Prop :=
  ∀ c d : Char, 128 ≤ c.toNat → 128 ≤ d.toNat → p c = p d

theorem Uniform.of_eq {p : Char → Bool} {b : Bool} (h : ∀ c : Char, 128 ≤ c.toNat → p c = b) : Uniform p :=
  fun c d hc hd => (h c hc).trans (h d hd).symm

/-! ## The text ahead -/

/-- The text from a position on. -/
def Ahead (s : String) (pos : Nat) (cs : List Char) : Prop :=
  ∃ before, s = String.ofList (before ++ cs) ∧ Scan.byteSize before = pos

theorem ahead_zero (s : String) : Ahead s 0 s.toList :=
  ⟨[], String.ofList_toList.symm, rfl⟩

namespace Ahead

variable {s : String} {pos : Nat} {cs ds : List Char} {c : Char}

theorem append (h : Ahead s pos (cs ++ ds)) : Ahead s (pos + Scan.byteSize cs) ds := by
  obtain ⟨before, rfl, rfl⟩ := h
  exact ⟨before ++ cs, by rw [List.append_assoc], byteSize_append before cs⟩

theorem size (h : Ahead s pos cs) : pos + Scan.byteSize cs = s.utf8ByteSize := by
  obtain ⟨before, rfl, rfl⟩ := h
  rw [utf8ByteSize_ofList, byteSize_append]

theorem slice (h : Ahead s pos (cs ++ ds)) : slice? s pos (pos + Scan.byteSize cs) = some (String.ofList cs) := by
  obtain ⟨before, rfl, rfl⟩ := h
  exact slice?_append before cs ds

theorem boundary (h : Ahead s pos cs) : IsBoundary s pos := by
  obtain ⟨before, rfl, rfl⟩ := h
  exact isBoundary_append before cs

theorem byteAt?_add (h : Ahead s pos cs) (i : Nat) : byteAt? s (pos + i) = (encode cs)[i]?.map Char.ofUInt8 := by
  obtain ⟨before, rfl, rfl⟩ := h
  rw [byteAt?, ofString_ofList, encode_append, ← length_encode, List.getElem?_append_right (Nat.le_add_right _ _),
    Nat.add_sub_cancel_left]

theorem nil (h : Ahead s pos []) : byteAt? s pos = none :=
  h.byteAt?_add 0

theorem tail (h : Ahead s pos (c :: cs)) : Ahead s (pos + c.utf8Size) cs := by
  have happend : Ahead s pos ([c] ++ cs) := h
  exact happend.append

/-- A character of ASCII is its own byte. -/
theorem ascii (h : Ahead s pos (c :: cs)) (hc : c.toNat < 128) : byteAt? s pos = some c ∧ Ahead s (pos + 1) cs := by
  obtain ⟨hbytes, hsize⟩ := utf8EncodeChar_ascii hc
  have hbyte := h.byteAt?_add 0
  have htail := h.tail
  rw [encode_cons, hbytes] at hbyte
  rw [hsize] at htail
  exact ⟨hbyte.trans (congrArg some (ofUInt8_toUInt8 hc)), htail⟩

/-- No byte of another character is one of ASCII. -/
theorem wide (h : Ahead s pos (c :: cs)) (hc : 128 ≤ c.toNat) {i : Nat} (hi : i < c.utf8Size) :
    ∃ b, byteAt? s (pos + i) = some b ∧ 128 ≤ b.toNat := by
  have hlt : i < (String.utf8EncodeChar c).length := by rwa [String.length_utf8EncodeChar]
  refine ⟨Char.ofUInt8 (String.utf8EncodeChar c)[i], ?_, ?_⟩
  · rw [h.byteAt?_add, encode_cons, List.getElem?_append_left hlt, List.getElem?_eq_getElem hlt, Option.map_some]
  · rw [toNat_ofUInt8]
    exact utf8EncodeChar_wide hc _ (List.getElem_mem hlt)

theorem wide_head (h : Ahead s pos (c :: cs)) (hc : 128 ≤ c.toNat) : ∃ b, byteAt? s pos = some b ∧ 128 ≤ b.toNat :=
  h.wide hc (i := 0) c.utf8Size_pos

/-- What does not change at a single byte that is not one of ASCII does not change at the first bytes of a character. -/
theorem pass {α : Type} {f : Nat → α} (h : Ahead s pos (c :: cs)) (hc : 128 ≤ c.toNat)
    (hf : ∀ p b, byteAt? s p = some b → 128 ≤ b.toNat → f p = f (p + 1)) {i : Nat} (hi : i ≤ c.utf8Size) :
    f pos = f (pos + i) := by
  induction i with
  | zero => rfl
  | succ i ih =>
    obtain ⟨b, hb, hwide⟩ := h.wide hc hi
    rw [ih (Nat.le_of_succ_le hi), hf _ b hb hwide, Nat.add_assoc]

theorem byteAt?_any (h : Ahead s pos cs) {p : Char → Bool} (hp : ∀ c : Char, 128 ≤ c.toNat → p c = false) :
    (byteAt? s pos).any p = cs.head?.any p := by
  cases cs with
  | nil => rw [h.nil, List.head?_nil]
  | cons c cs =>
    by_cases hc : c.toNat < 128
    · rw [(h.ascii hc).1, List.head?_cons]
    · obtain ⟨b, hb, hwide⟩ := h.wide_head (Nat.le_of_not_lt hc)
      rw [hb, List.head?_cons, Option.any_some, Option.any_some, hp b hwide, hp c (Nat.le_of_not_lt hc)]

theorem byteAt?_beq (h : Ahead s pos cs) {q : Char} (hq : q.toNat < 128) :
    (byteAt? s pos == some q) = (cs.head? == some q) := by
  have hany : ∀ o : Option Char, o.any (· == q) = (o == some q) := by
    intro o
    cases o <;> rfl
  rw [← hany, ← hany, h.byteAt?_any fun c hc => beq_of_wide hc hq]

/-- Two characters of ASCII. -/
theorem pair {d a b : Char} (h : Ahead s pos (c :: d :: cs)) (hmark : (c == a && d == b) = true) (ha : a.toNat < 128)
    (hb : b.toNat < 128) : byteAt? s pos = some a ∧ byteAt? s (pos + 1) = some b ∧ Ahead s (pos + 2) cs ∧
      pos + Scan.byteSize [c, d] = pos + 2 := by
  obtain ⟨hc, hd⟩ := Bool.and_eq_true_iff.1 hmark
  obtain rfl := eq_of_beq hc
  obtain rfl := eq_of_beq hd
  obtain ⟨hbyte, htail⟩ := h.ascii ha
  obtain ⟨hnext, hrest⟩ := htail.ascii hb
  refine ⟨hbyte, hnext, hrest, ?_⟩
  rw [add_byteSize ha, add_byteSize hb]
  rfl

end Ahead

/-! ## Ends of tokens -/

section Ends

variable {s : String} {pos : Nat} {cs : List Char}

theorem Ahead.skipWhile_eq (h : Ahead s pos cs) {p : Char → Bool} (hp : Uniform p) :
    skipWhile p s pos = pos + Scan.byteSize (cs.takeWhile p) := by
  induction cs generalizing pos with
  | nil => rw [skipWhile_def, h.nil]; rfl
  | cons c cs ih =>
    rw [List.takeWhile_cons]
    by_cases hc : c.toNat < 128
    · obtain ⟨hbyte, htail⟩ := h.ascii hc
      rw [skipWhile_def, hbyte]
      dsimp only
      split
      · rw [ih htail, add_byteSize hc]
      · rfl
    · have hwide := Nat.le_of_not_lt hc
      obtain ⟨b, hb, hbwide⟩ := h.wide_head hwide
      cases hpc : p c with
      | true =>
        have hpass := h.pass (f := skipWhile p s) hwide (fun q d hd hdwide => by
          conv => lhs; rw [skipWhile_def, hd]
          exact if_pos ((hp d c hdwide hwide).trans hpc)) (Nat.le_refl _)
        rw [hpass, ih h.tail, if_pos rfl, byteSize_cons, Nat.add_assoc]
      | false =>
        rw [skipWhile_def, hb]
        exact if_neg (by rw [hp b c hbwide hwide, hpc]; exact Bool.false_ne_true)

/-- The position behind the first of two parts. -/
def behind (pos : Nat) (r : List Char × List Char) : Nat :=
  pos + Scan.byteSize r.1

theorem map_after (o : Option (List Char × List Char)) (ds : List Char) (pos : Nat) :
    (o.map (after ds)).map (behind pos) = o.map (behind (pos + Scan.byteSize ds)) := by
  cases o with
  | none => rfl
  | some r => exact congrArg some (by rw [behind, behind, after, byteSize_append, Nat.add_assoc])

theorem quoteEnd?_wide {q : Char} (hq : q.toNat < 128) (escapes : Bool) (p : Nat) (b : Char)
    (hb : byteAt? s p = some b) (hwide : 128 ≤ b.toNat) :
    quoteEnd? q escapes s p = quoteEnd? q escapes s (p + 1) := by
  have hslash := beq_of_wide hwide (q := '\\') (by decide)
  have hquote := beq_of_wide hwide hq
  conv => lhs; rw [quoteEnd?_def, hb]
  dsimp only
  rw [hslash, hquote, Bool.and_false]
  rfl

/-- Where the text has ended, nothing is closed. -/
theorem Ahead.quoteEnd?_end (h : Ahead s pos []) (q : Char) (escapes : Bool) (i : Nat) :
    quoteEnd? q escapes s (pos + i) = none := by
  rw [quoteEnd?_def, h.byteAt?_add i]
  rfl

/-- A backslash takes one byte of the next character with it; the others are passed. -/
theorem Ahead.quoteEnd?_over {d : Char} (h : Ahead s pos (d :: cs)) {q : Char} (hq : q.toNat < 128) (escapes : Bool) :
    quoteEnd? q escapes s (pos + 1) = quoteEnd? q escapes s (pos + d.utf8Size) := by
  by_cases hd : d.toNat < 128
  · rw [(utf8EncodeChar_ascii hd).2]
  · have hpass : ∀ i ≤ d.utf8Size,
        quoteEnd? q escapes s pos = quoteEnd? q escapes s (pos + i) := fun i =>
      h.pass (Nat.le_of_not_lt hd) (quoteEnd?_wide hq escapes)
    rw [← hpass 1 d.utf8Size_pos, ← hpass d.utf8Size (Nat.le_refl _)]

theorem Ahead.quoteEnd?_next {c : Char} (h : Ahead s pos (c :: cs)) {q : Char} (hq : q.toNat < 128) {escapes : Bool}
    (hesc : ¬(escapes && c == '\\') = true) (hcq : ¬(c == q) = true) :
    quoteEnd? q escapes s pos = quoteEnd? q escapes s (pos + c.utf8Size) := by
  rw [← h.quoteEnd?_over hq]
  by_cases hc : c.toNat < 128
  · conv => lhs; rw [quoteEnd?_def, (h.ascii hc).1]
    dsimp only
    rw [if_neg hesc, if_neg hcq]
  · obtain ⟨b, hb, hwide⟩ := h.wide_head (Nat.le_of_not_lt hc)
    exact quoteEnd?_wide hq escapes pos b hb hwide

theorem Ahead.quoteEnd?_eq (h : Ahead s pos cs) {q : Char} (hq : q.toNat < 128) (hslash : q ≠ '\\') (escapes : Bool) :
    quoteEnd? q escapes s pos = (closeQuote? q escapes cs).map (behind pos) := by
  have hescape : ¬(escapes && q == '\\') = true := by simp [hslash]
  -- all marks are ASCII, so the bytes take the branch that the characters take
  fun_induction closeQuote? q escapes cs generalizing pos with
  | case1 => exact h.quoteEnd?_end q escapes 0
  | case2 c hcq =>
    obtain rfl := eq_of_beq hcq
    obtain ⟨hbyte, htail⟩ := h.ascii hq
    rw [quoteEnd?_def, hbyte, Option.map_some, behind, add_byteSize hq]
    dsimp only
    rw [if_neg hescape, if_pos hcq, htail.nil]
    rfl
  | case3 c hcq =>
    by_cases hesc : (escapes && c == '\\') = true
    · obtain rfl := eq_of_beq (Bool.and_eq_true_iff.1 hesc).2
      obtain ⟨hbyte, htail⟩ := h.ascii (by decide)
      rw [quoteEnd?_def, hbyte]
      dsimp only
      rw [if_pos hesc]
      exact htail.quoteEnd?_end q escapes 1
    · rw [h.quoteEnd?_next hq hesc hcq]
      exact h.tail.quoteEnd?_end q escapes 0
  | case4 c d cs hesc ih =>
    obtain rfl := eq_of_beq (Bool.and_eq_true_iff.1 hesc).2
    obtain ⟨hbyte, htail⟩ := h.ascii (by decide)
    rw [quoteEnd?_def, hbyte]
    dsimp only
    rw [if_pos hesc, map_after, add_byteSize (by decide)]
    exact (htail.quoteEnd?_over hq escapes).trans (ih htail.tail)
  | case5 c d cs hesc hcq hdq ih =>
    obtain rfl := eq_of_beq hcq
    obtain rfl := eq_of_beq hdq
    obtain ⟨hbyte, htail⟩ := h.ascii hq
    obtain ⟨hnext, hrest⟩ := htail.ascii hq
    rw [quoteEnd?_def, hbyte]
    dsimp only
    rw [if_neg hesc, if_pos hcq, hnext, if_pos (beq_self_eq_true _), map_after, add_byteSize hq, add_byteSize hq]
    exact ih hrest
  | case6 c d cs hesc hcq hdq =>
    obtain rfl := eq_of_beq hcq
    obtain ⟨hbyte, htail⟩ := h.ascii hq
    rw [quoteEnd?_def, hbyte, Option.map_some, behind, add_byteSize hq]
    dsimp only
    rw [if_neg hesc, if_pos hcq, htail.byteAt?_beq hq, List.head?_cons, Option.some_beq_some, if_neg hdq]
    rfl
  | case7 c d cs hesc hcq ih =>
    rw [h.quoteEnd?_next hq hesc hcq, map_after]
    exact ih h.tail

theorem commentEnd?_wide (depth p : Nat) (b : Char) (hb : byteAt? s p = some b) (hwide : 128 ≤ b.toNat) :
    commentEnd? s depth p = commentEnd? s depth (p + 1) := by
  have hslash := beq_of_wide hwide (q := '/') (by decide)
  have hstar := beq_of_wide hwide (q := '*') (by decide)
  conv => lhs; rw [commentEnd?_def, hb]
  dsimp only
  rw [hslash, hstar]
  rfl

theorem Ahead.commentEnd?_next {c : Char} (h : Ahead s pos (c :: cs)) (depth : Nat)
    (hopen : ¬(c == '/' && cs.head? == some '*') = true) (hclose : ¬(c == '*' && cs.head? == some '/') = true) :
    commentEnd? s depth pos = commentEnd? s depth (pos + c.utf8Size) := by
  by_cases hc : c.toNat < 128
  · obtain ⟨hbyte, htail⟩ := h.ascii hc
    conv => lhs; rw [commentEnd?_def, hbyte]
    dsimp only
    rw [htail.byteAt?_beq (by decide), htail.byteAt?_beq (by decide), if_neg hopen, if_neg hclose,
      (utf8EncodeChar_ascii hc).2]
  · exact h.pass (Nat.le_of_not_lt hc) (commentEnd?_wide depth) (Nat.le_refl _)

/-- A comment is open, and `depth` others are open inside of it. -/
theorem Ahead.commentEnd?_eq (h : Ahead s pos cs) (depth : Nat) :
    commentEnd? s (depth + 1) pos = some ((closeComment? depth cs).map (behind pos)) := by
  fun_induction closeComment? depth cs generalizing pos with
  | case1 => rw [commentEnd?_def, h.nil]; rfl
  | case2 depth c =>
    have hno : ∀ a b : Char, ¬(c == a && ([] : List Char).head? == some b) = true := by simp
    rw [h.commentEnd?_next _ (hno _ _) (hno _ _), commentEnd?_def, h.tail.nil]
    rfl
  | case3 depth c d cs hopen ih =>
    obtain ⟨hbyte, hnext, hrest, hsize⟩ := h.pair hopen (by decide) (by decide)
    rw [commentEnd?_def, hbyte, hnext, map_after, hsize]
    exact ih hrest
  | case4 c d cs hopen hclose =>
    obtain ⟨hbyte, hnext, -, hsize⟩ := h.pair hclose (by decide) (by decide)
    rw [commentEnd?_def, hbyte, hnext, Option.map_some, behind, hsize]
    rfl
  | case5 c d cs hopen hclose depth ih =>
    obtain ⟨hbyte, hnext, hrest, hsize⟩ := h.pair hclose (by decide) (by decide)
    rw [commentEnd?_def, hbyte, hnext, map_after, hsize]
    exact ih hrest
  | case6 depth c d cs hopen hclose ih =>
    rw [h.commentEnd?_next _ hopen hclose, map_after]
    exact ih h.tail

theorem Ahead.signWidth_eq (h : Ahead s pos cs) : signWidth s pos = if cs.head?.any isSign then 1 else 0 := by
  rw [signWidth, h.byteAt?_any isSign_wide]

theorem isSign_of_isDigit {c : Char} (h : c.isDigit = true) : isSign c = false := by
  rw [Bool.eq_false_iff]
  intro hs
  rcases Bool.or_eq_true_iff.1 hs with hs | hs
  · rw [eq_of_beq hs] at h
    cases h
  · rw [eq_of_beq hs] at h
    cases h

/-- A digit, perhaps behind a sign. -/
theorem Ahead.startsExponent_eq (h : Ahead s pos cs) :
    (byteAt? s (pos + signWidth s pos)).any Char.isDigit = startsExponent cs := by
  rw [h.signWidth_eq]
  cases cs with
  | nil => exact congrArg (Option.any Char.isDigit) h.nil
  | cons c cs =>
    rw [Token.startsExponent, List.head?_cons, Option.any_some]
    cases hs : isSign c with
    | true =>
      have hc := ascii_of_wide isSign_wide hs
      have hdigit : c.isDigit = false := by
        rw [Bool.eq_false_iff]
        intro hd
        rw [isSign_of_isDigit hd] at hs
        cases hs
      rw [isSign] at hs
      rw [if_pos rfl, (h.ascii hc).2.byteAt?_any isDigit_wide, hdigit, hs]
      rfl
    | false =>
      rw [isSign] at hs
      rw [hs, if_neg Bool.false_ne_true]
      exact (h.byteAt?_any isDigit_wide).trans (Bool.or_false _).symm

/-- A sign in front is passed only where it may follow. -/
theorem Ahead.numberEnd_unsigned {c : Char} (h : Ahead s pos (c :: cs)) {sign : Bool}
    (hs : ¬(sign && isSign c) = true) : (if sign then signWidth s pos else 0) = 0 := by
  rw [h.signWidth_eq]
  cases sign with
  | false => rfl
  | true => exact if_neg hs

theorem Ahead.numberEnd_eq (h : Ahead s pos cs) (point exponent sign : Bool) :
    numberEnd s point exponent (pos + if sign then signWidth s pos else 0) =
      pos + Scan.byteSize (splitNumber point exponent sign cs).1 := by
  fun_induction splitNumber point exponent sign cs generalizing pos with
  | case1 point exponent sign =>
    have hwidth : (if sign then signWidth s pos else 0) = 0 := by
      rw [h.signWidth_eq]
      cases sign <;> rfl
    rw [hwidth, numberEnd_def, Nat.add_zero, h.nil]
    rfl
  | case2 point exponent sign c cs hc ih =>
    -- a character that belongs to a number is a single byte
    have hwide : ∀ d : Char, 128 ≤ d.toNat → (d.isDigit || d == '_' || sign && isSign d) = false := by
      intro d hd
      simp [isDigit_wide d hd, isSign_wide d hd, beq_of_wide hd]
    have hascii := ascii_of_wide hwide hc
    obtain ⟨hbyte, htail⟩ := h.ascii hascii
    rw [Lexical.after_fst, List.singleton_append, add_byteSize hascii, ← ih htail]
    by_cases hs : (sign && isSign c) = true
    · obtain ⟨rfl, hsign⟩ := Bool.and_eq_true_iff.1 hs
      rw [h.signWidth_eq, List.head?_cons, Option.any_some, hsign]
      rfl
    · have hfigure : (c.isDigit || c == '_') = true := by
        rw [Bool.or_eq_true] at hc
        exact hc.resolve_right hs
      rw [h.numberEnd_unsigned hs, numberEnd_def, Nat.add_zero, hbyte]
      exact if_pos hfigure
  | case3 point exponent sign c cs hc hpoint ih =>
    obtain rfl : c = '.' := eq_of_beq (Bool.and_eq_true_iff.1 (Bool.and_eq_true_iff.1 hpoint).1).1
    obtain ⟨hbyte, htail⟩ := h.ascii (by decide)
    rw [Lexical.after_fst, List.singleton_append, add_byteSize (by decide), ← ih htail]
    rw [h.numberEnd_unsigned (by simp [isSign]), numberEnd_def, Nat.add_zero, hbyte]
    exact if_pos hpoint
  | case4 point exponent sign c cs hc hpoint hmark ih =>
    have hfigure : ¬(c.isDigit || c == '_') = true := fun hf => hc (Bool.or_eq_true_iff.2 (.inl hf))
    have hsign : ¬(sign && isSign c) = true := fun hs => hc (Bool.or_eq_true_iff.2 (.inr hs))
    have hwide : ∀ d : Char, 128 ≤ d.toNat → (d == 'e' || d == 'E') = false := by
      intro d hd
      simp [beq_of_wide hd]
    have hascii := ascii_of_wide hwide (Bool.and_eq_true_iff.1 (Bool.and_eq_true_iff.1 hmark).1).1
    obtain ⟨hbyte, htail⟩ := h.ascii hascii
    rw [Lexical.after_fst, List.singleton_append, add_byteSize hascii, ← ih htail]
    rw [h.numberEnd_unsigned hsign, numberEnd_def, Nat.add_zero, hbyte]
    dsimp only
    rw [if_neg hfigure, if_neg hpoint, htail.startsExponent_eq, if_pos hmark, if_pos rfl]
  | case5 point exponent sign c cs hc hpoint hmark =>
    have hfigure : ¬(c.isDigit || c == '_') = true := fun hf => hc (Bool.or_eq_true_iff.2 (.inl hf))
    have hsign : ¬(sign && isSign c) = true := fun hs => hc (Bool.or_eq_true_iff.2 (.inr hs))
    rw [h.numberEnd_unsigned hsign, numberEnd_def, Nat.add_zero]
    -- the number ends before this character, also where it has several bytes
    by_cases hascii : c.toNat < 128
    · obtain ⟨hbyte, htail⟩ := h.ascii hascii
      rw [hbyte]
      dsimp only
      rw [if_neg hfigure, if_neg hpoint, htail.startsExponent_eq, if_neg hmark]
      rfl
    · obtain ⟨b, hb, hwide⟩ := h.wide_head (Nat.le_of_not_lt hascii)
      rw [hb]
      dsimp only
      simp [isDigit_wide b hwide, beq_of_wide hwide]

end Ends

end SpatialQuery.Bytewise
