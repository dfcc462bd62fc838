import SpatialQuery.Proofs.Lexical.Agreement
import SpatialQuery.Proofs.Lexical.Stepping

/-!
The tokens that the scan by bytes finds are those of the scan by characters, with their offsets (`scan?_eq`). They tile
their text: each one is the slice between its offsets, they stand behind one another, and there are only blanks around
them (`tiles_scanned`).
-/

namespace SpatialQuery.Bytewise

open Token Text Lexical

/-! ## Delimiters -/

section Delimiters

variable {d cs : List Char}

theorem beq_toUInt8 {c e : Char} (hc : c.toNat < 128) (he : e.toNat < 128) : (e.toUInt8 == c.toUInt8) = (e == c) := by
  rw [Bool.eq_iff_iff, beq_iff_eq, beq_iff_eq]
  constructor
  · intro h
    rw [← ofUInt8_toUInt8 he, h, ofUInt8_toUInt8 hc]
  · rintro rfl
    rfl

theorem exists_wide {c : Char} (hc : 128 ≤ c.toNat) : ∃ b bs, String.utf8EncodeChar c = b :: bs ∧ 128 ≤ b.toNat := by
  have hwide := utf8EncodeChar_wide hc
  cases hbytes : String.utf8EncodeChar c with
  | nil => exact absurd hbytes (List.ne_nil_of_length_pos (by rw [String.length_utf8EncodeChar]; exact c.utf8Size_pos))
  | cons b bs =>
    rw [hbytes] at hwide
    exact ⟨b, bs, rfl, hwide b List.mem_cons_self⟩

theorem toNat_toUInt8 {c : Char} (hc : c.toNat < 128) : c.toUInt8.toNat = c.toNat := by
  rw [← toNat_ofUInt8, ofUInt8_toUInt8 hc]

theorem isPrefixOf_encode (hd : ∀ c ∈ d, c.toNat < 128) : (encode d).isPrefixOf (encode cs) = d.isPrefixOf cs := by
  induction d generalizing cs with
  | nil => rfl
  | cons e d ih =>
    obtain ⟨he, hd⟩ := List.forall_mem_cons.1 hd
    rw [encode_cons, (utf8EncodeChar_ascii he).1, List.singleton_append]
    cases cs with
    | nil => rfl
    | cons c cs =>
      rw [encode_cons]
      -- The first byte of a wide character is no ASCII byte, so the two disagree there as their characters do.
      by_cases hc : c.toNat < 128
      · rw [(utf8EncodeChar_ascii hc).1, List.singleton_append, List.isPrefixOf_cons_cons, List.isPrefixOf_cons_cons,
          beq_toUInt8 hc he, ih hd]
      · obtain ⟨b, bs, hbytes, hb⟩ := exists_wide (Nat.le_of_not_lt hc)
        have hne : (e.toUInt8 == b) = false := by
          rw [beq_eq_false_iff_ne]
          rintro rfl
          rw [toNat_toUInt8 he] at hb
          omega
        have hne' : (e == c) = false := by
          rw [beq_eq_false_iff_ne]
          rintro rfl
          exact hc he
        rw [hbytes, List.cons_append, List.isPrefixOf_cons_cons, List.isPrefixOf_cons_cons, hne, hne']
        rfl

/-- A delimiter does not begin inside of a character. -/
theorem find?_wide {b : UInt8} {part : Bytes} (hb : b.toNat < 128) {ws : Bytes} (hws : ∀ w ∈ ws, 128 ≤ w.toNat)
    (bs : Bytes) : find? (b :: part) (ws ++ bs) = (find? (b :: part) bs).map (· + ws.length) := by
  induction ws with
  | nil => exact Option.map_id'.symm
  | cons w ws ih =>
    obtain ⟨hw, hws⟩ := List.forall_mem_cons.1 hws
    have hne : (b == w) = false := by
      rw [beq_eq_false_iff_ne]
      rintro rfl
      omega
    rw [List.cons_append, find?, List.isPrefixOf_cons_cons, hne, Bool.false_and, if_neg Bool.false_ne_true, ih hws,
      Option.map_map]
    rfl

theorem find?_encode (hd : ∀ c ∈ '$' :: d, c.toNat < 128) (start : Nat) :
    (find? (encode ('$' :: d)) (encode cs)).map (start + · + Scan.byteSize ('$' :: d)) =
      (closeDelimiter? ('$' :: d) cs).map (behind start) := by
  induction cs generalizing start with
  | nil => rfl
  | cons c cs ih =>
    have hstep : ∀ n, ((find? (encode ('$' :: d)) (encode cs)).map (· + n)).map (start + · + Scan.byteSize ('$' :: d)) =
        (closeDelimiter? ('$' :: d) cs).map (behind (start + n)) := by
      intro n
      rw [← ih, Option.map_map]
      refine congrArg (Option.map · _) (funext fun m => ?_)
      show start + (m + n) + _ = start + n + m + _
      omega
    rw [closeDelimiter?]
    -- the delimiter begins with ASCII, so it is not found inside of a longer character
    by_cases hc : c.toNat < 128
    · have hbytes : encode (c :: cs) = c.toUInt8 :: encode cs := by
        rw [encode_cons, (utf8EncodeChar_ascii hc).1, List.singleton_append]
      have hprefix : (encode ('$' :: d)).isPrefixOf (encode (c :: cs)) = _ := isPrefixOf_encode hd
      rw [hbytes] at hprefix ⊢
      rw [find?, hprefix]
      split
      · rfl
      · rw [hstep, map_after, add_byteSize hc]
        rfl
    · have hne : ('$' == c) = false := by
        rw [beq_eq_false_iff_ne]
        rintro rfl
        exact hc (by decide)
      have hdollar : encode ('$' :: d) = '$'.toUInt8 :: encode d := rfl
      rw [encode_cons c, hdollar, find?_wide (by decide) (utf8EncodeChar_wide (Nat.le_of_not_lt hc)), ← hdollar, hstep,
        List.isPrefixOf_cons_cons, hne, Bool.false_and, if_neg Bool.false_ne_true, map_after,
        String.length_utf8EncodeChar]
      rfl

end Delimiters

/-! ## Tokens -/

/-- The kind of a token that begins at a position, and the position behind it. -/
def reached (pos : Nat) (t : Token) : Kind × Nat :=
  (t.kind, pos + Scan.byteSize t.text)

section Tokens

variable {s : String} {pos : Nat} {cs : List Char}

theorem Ahead.rest (h : Ahead s pos cs) : slice? s pos s.utf8ByteSize = some (String.ofList cs) := by
  have happend : Ahead s pos (cs ++ []) := by rwa [List.append_nil]
  rw [← h.size]
  exact happend.slice

theorem Ahead.closing_eq (opening : List Char) (h : Ahead s pos (opening ++ cs)) (kind : Kind) (what : Construct)
    (o : Option (List Char × List Char)) :
    closing kind what s (o.map (behind (pos + Scan.byteSize opening))) =
      reached pos (ofClosing kind what opening cs o).1 := by
  cases o with
  | none => exact congrArg (Kind.unclosed what, ·) h.size.symm
  | some r =>
    refine congrArg (kind, ·) ?_
    show pos + Scan.byteSize opening + Scan.byteSize r.1 = pos + Scan.byteSize (opening ++ r.1)
    rw [byteSize_append, Nat.add_assoc]

theorem Ahead.quoted_eq (opening : List Char) (h : Ahead s pos (opening ++ cs)) {q : Char} (hq : q.toNat < 128)
    (hslash : q ≠ '\\') (escapes : Bool) (kind : Kind) (what : Construct) :
    closing kind what s (quoteEnd? q escapes s (pos + Scan.byteSize opening)) =
      reached pos (ofClosing kind what opening cs (closeQuote? q escapes cs)).1 := by
  rw [h.append.quoteEnd?_eq hq hslash]
  exact h.closing_eq opening kind what _

theorem Ahead.takeWhile (h : Ahead s pos cs) (p : Char → Bool) :
    Ahead s (pos + Scan.byteSize (cs.takeWhile p)) (cs.dropWhile p) := by
  apply append
  rwa [List.takeWhile_append_dropWhile]

theorem tag_ascii : ∀ c ∈ '$' :: (cs.takeWhile isTagPart ++ ['$']), c.toNat < 128 := by
  intro c hc
  rcases List.mem_cons.1 hc with rfl | hc
  · decide
  · rcases List.mem_append.1 hc with hc | hc
    · exact ascii_of_wide isTagPart_wide (List.mem_takeWhile_imp hc)
    · obtain rfl := List.mem_singleton.1 hc
      decide

theorem Ahead.tagged?_eq (h : Ahead s pos ('$' :: cs)) : tagged? s pos = some (reached pos (readTagged cs).1) := by
  obtain ⟨-, htail⟩ := h.ascii (by decide)
  have htag := htail.skipWhile_eq (.of_eq isTagPart_wide)
  have hend := htail.takeWhile isTagPart
  rw [tagged?, readTagged]
  dsimp only
  rw [htag, hend.byteAt?_beq (by decide)]
  by_cases hdollar : ((cs.dropWhile isTagPart).head? == some '$') = true
  · obtain ⟨behind, hbehind⟩ : ∃ behind, cs.dropWhile isTagPart = '$' :: behind := ⟨_, eq_cons_of_head? hdollar⟩
    let delimiter := '$' :: (cs.takeWhile isTagPart ++ ['$'])
    have hsplit : Ahead s pos (delimiter ++ behind) := by
      rw [← List.takeWhile_append_dropWhile (p := isTagPart) (l := cs), hbehind] at h
      simpa [delimiter] using h
    have hstop : pos + 1 + Scan.byteSize (cs.takeWhile isTagPart) + 1 = pos + Scan.byteSize delimiter := by
      rw [add_byteSize (by decide), byteSize_append]
      rfl
    rw [if_pos hdollar, hbehind, hstop, hsplit.slice]
    simp only [bind, Option.bind_some, utf8ByteSize_ofList, hsplit.append.rest]
    rw [ofString_ofList, ofString_ofList, find?_encode tag_ascii]
    exact congrArg some (hsplit.closing_eq delimiter _ _ _)
  · rw [if_neg hdollar]
    split
    · rename_i behind hbehind
      rw [hbehind] at hdollar
      exact absurd rfl hdollar
    · rfl

theorem Ahead.dollar?_eq (h : Ahead s pos ('$' :: cs)) : dollar? s pos = some (reached pos (readDollar cs).1) := by
  obtain ⟨-, htail⟩ := h.ascii (by decide)
  have hdigits := htail.skipWhile_eq (.of_eq isDigit_wide)
  rw [dollar?, readDollar, hdigits]
  by_cases hnone : (cs.takeWhile Char.isDigit).isEmpty = true
  · have hlt : ¬pos + 1 < pos + 1 + Scan.byteSize (cs.takeWhile Char.isDigit) := by
      rw [List.isEmpty_iff.1 hnone]
      exact Nat.lt_irrefl _
    rw [if_pos hnone]
    exact (if_neg hlt).trans h.tagged?_eq
  · have hpos := byteSize_pos (mt List.isEmpty_iff.2 hnone)
    have hslice : Ahead s (pos + 1) (cs.takeWhile Char.isDigit ++ cs.dropWhile Char.isDigit) := by
      rwa [List.takeWhile_append_dropWhile]
    rw [if_pos (by omega), if_neg hnone, hslice.slice, Option.map_some, String.toList_ofList, reached,
      add_byteSize (by decide)]

theorem Ahead.word_eq {c : Char} (h : Ahead s pos (c :: cs)) (hc : isWordPart c = true) :
    skipWhile isWordPart s pos = pos + Scan.byteSize (c :: cs.takeWhile isWordPart) := by
  rw [h.skipWhile_eq (.of_eq isWordPart_wide), List.takeWhile_cons, if_pos hc]

/-- A character outside of ASCII begins a word. -/
theorem Ahead.token?_wide {b c : Char} (h : Ahead s pos (c :: cs)) (hc : 128 ≤ c.toNat) (hb : 128 ≤ b.toNat) :
    token? s pos b = some (reached pos (read c cs).1) := by
  have hword := h.word_eq (isWordPart_wide c hc)
  simp (disch := decide) only [token?, Token.read, beq_of_wide hb, beq_of_wide hc, isDigit_wide b hb, isDigit_wide c hc,
    isWordStart_wide b hb, isWordStart_wide c hc, Bool.false_and, Bool.false_or, Bool.false_eq_true, if_false, if_true,
    hword, reached]

theorem Ahead.token?_ascii {c : Char} (h : Ahead s pos (c :: cs)) (hc : c.toNat < 128) :
    token? s pos c = some (reached pos (read c cs).1) := by
  obtain ⟨hbyte, htail⟩ := h.ascii hc
  rw [token?, Token.read]
  dsimp only
  rw [htail.byteAt?_beq (by decide), htail.byteAt?_beq (by decide), htail.byteAt?_beq (by decide),
    htail.byteAt?_any isDigit_wide]
  -- the branches of the two scanners correspond
  split_ifs with hline hblock hquote hescape hname hdollar hnumber hword
  · obtain ⟨hfirst, -⟩ := Bool.and_eq_true_iff.1 hline
    obtain rfl := eq_of_beq hfirst
    have hwide : ∀ d : Char, 128 ≤ d.toNat → (d != '\n') = true := by
      intro d hd
      rw [bne, beq_of_wide hd (by decide)]
      rfl
    rw [h.skipWhile_eq (.of_eq hwide), List.takeWhile_cons]
    rfl
  · obtain ⟨hfirst, hsecond⟩ := Bool.and_eq_true_iff.1 hblock
    obtain rfl := eq_of_beq hfirst
    obtain ⟨ds, rfl⟩ : ∃ ds, cs = '*' :: ds := ⟨_, eq_cons_of_head? hsecond⟩
    obtain ⟨hnext, hbody⟩ := htail.ascii (by decide)
    have hopen : commentEnd? s 0 pos = commentEnd? s 1 (pos + 2) := by
      rw [commentEnd?_def, hbyte, hnext]
      rfl
    rw [hopen, hbody.commentEnd?_eq 0]
    exact congrArg some (h.closing_eq ['/', '*'] _ _ _)
  · obtain rfl := eq_of_beq hquote
    exact congrArg some (h.quoted_eq ['\''] hc (by decide) _ _ _)
  · obtain ⟨-, hsecond⟩ := Bool.and_eq_true_iff.1 hescape
    obtain ⟨ds, rfl⟩ : ∃ ds, cs = '\'' :: ds := ⟨_, eq_cons_of_head? hsecond⟩
    have hsize : pos + Scan.byteSize [c, '\''] = pos + 2 := by
      rw [add_byteSize hc]
      rfl
    rw [← hsize]
    exact congrArg some (h.quoted_eq [c, '\''] (by decide) (by decide) _ _ _)
  · obtain rfl := eq_of_beq hname
    exact congrArg some (h.quoted_eq ['"'] hc (by decide) _ _ _)
  · obtain rfl := eq_of_beq hdollar
    exact h.dollar?_eq
  · exact congrArg (fun stop => some (Kind.number, stop)) (h.numberEnd_eq false false false)
  · rw [h.word_eq (Bool.or_eq_true_iff.2 (.inl (Bool.or_eq_true_iff.2 (.inl hword))))]
    rfl
  · rw [h.rest]
    simp [reached, Scan.byteSize]

theorem Ahead.token?_eq {b c : Char} (h : Ahead s pos (c :: cs)) (hb : byteAt? s pos = some b) :
    token? s pos b = some (reached pos (read c cs).1) := by
  by_cases hc : c.toNat < 128
  · rw [(h.ascii hc).1] at hb
    rw [← Option.some.inj hb, h.token?_ascii hc]
  · obtain ⟨d, hd, hwide⟩ := h.wide_head (Nat.le_of_not_lt hc)
    rw [hd] at hb
    rw [← Option.some.inj hb, h.token?_wide (Nat.le_of_not_lt hc) hwide]

end Tokens

/-! ## Scans -/

/-- The tokens of pieces, the first of which begins at an offset. -/
def spannedFrom (offset : Nat) : List Piece → List Spanned
  | [] => []
  | p :: ps =>
    let start := offset + Scan.byteSize p.blanks
    let stop := start + Scan.byteSize p.token.text
    ⟨p.token, start, stop⟩ :: spannedFrom stop ps

/-- The first token that is not closed. -/
def openIn? (ts : List Spanned) : Option (Construct × Nat) :=
  ts.findSome? fun t =>
    match t.token.kind with
    | .unclosed what => some (what, t.start)
    | _ => none

/-- The scan by characters, with the offsets of its tokens. -/
def scanned (s : Scan) : Scanned :=
  ⟨spannedFrom 0 s.pieces, s.unclosed?⟩

theorem openIn?_spannedFrom (offset : Nat) (ps : List Piece) :
    openIn? (spannedFrom offset ps) = (ps.zip ((Scan.spans offset ps).map Prod.fst)).findSome? fun (p, start) =>
      match p.token.kind with
      | .unclosed what => some (what, start)
      | _ => none := by
  induction ps generalizing offset with
  | nil => rfl
  | cons p ps ih =>
    rw [spannedFrom, openIn?, List.findSome?_cons, ← openIn?, ih]
    rfl

/-- The tokens of pieces as a scan that begins at an offset reports them. -/
def scannedFrom (offset : Nat) (ps : List Piece) : Scanned :=
  ⟨spannedFrom offset ps, openIn? (spannedFrom offset ps)⟩

theorem scannedFrom_unclosed (offset : Nat) {p : Piece} {what : Construct} (hp : p.token.kind = .unclosed what) :
    scannedFrom offset [p] = ⟨spannedFrom offset [p], some (what, offset + Scan.byteSize p.blanks)⟩ := by
  simp only [scannedFrom, spannedFrom, openIn?, List.findSome?_cons, hp]

theorem scannedFrom_closed (offset : Nat) {p : Piece} (hp : ∀ what, p.token.kind ≠ .unclosed what) (ps : List Piece) :
    scannedFrom offset (p :: ps) =
      (scannedFrom (offset + Scan.byteSize p.blanks + Scan.byteSize p.token.text) ps).cons
        ⟨p.token, offset + Scan.byteSize p.blanks, offset + Scan.byteSize p.blanks + Scan.byteSize p.token.text⟩ := by
  simp only [scannedFrom, spannedFrom, openIn?, List.findSome?_cons]
  rfl

theorem scanned_eq (s : Scan) : scanned s = scannedFrom 0 s.pieces := by
  rw [scannedFrom, openIn?_spannedFrom]
  rfl

section Scans

variable {s : String} {pos : Nat} {cs : List Char}

theorem Ahead.scanFrom?_blanks (h : Ahead s pos cs) :
    scanFrom? s pos = scanFrom? s (pos + Scan.byteSize (cs.takeWhile isSpace)) := by
  induction cs generalizing pos with
  | nil => rfl
  | cons c cs ih =>
    rw [List.takeWhile_cons]
    split
    · rename_i hc
      have hascii := ascii_of_wide isSpace_wide hc
      obtain ⟨hbyte, htail⟩ := h.ascii hascii
      rw [add_byteSize hascii, ← ih htail]
      conv => lhs; rw [scanFrom?_def, hbyte]
      exact if_pos hc
    · rfl

theorem Ahead.exists_byte {c : Char} (h : Ahead s pos (c :: cs)) (hc : isSpace c = false) :
    ∃ b, byteAt? s pos = some b ∧ isSpace b = false := by
  by_cases hascii : c.toNat < 128
  · exact ⟨c, (h.ascii hascii).1, hc⟩
  · obtain ⟨b, hb, hwide⟩ := h.wide_head (Nat.le_of_not_lt hascii)
    exact ⟨b, hb, isSpace_wide b hwide⟩

theorem Ahead.scanFrom?_eq (h : Ahead s pos cs) :
    scanFrom? s pos = some (scannedFrom pos (Scan.ofChars cs).pieces) := by
  fun_induction Scan.ofChars cs generalizing pos with
  | case1 cs hd =>
    have hend := h.takeWhile isSpace
    rw [hd] at hend
    rw [h.scanFrom?_blanks, scanFrom?_def, hend.nil]
    rfl
  | case2 cs c rest hd r =>
    rename_i ih
    have hc := isSpace_of_dropWhile hd
    have hahead := h.takeWhile isSpace
    rw [hd] at hahead
    obtain ⟨b, hb, hspace⟩ := hahead.exists_byte hc
    have hsplit : Ahead s (pos + Scan.byteSize (cs.takeWhile isSpace))
        ((Token.read c rest).1.text ++ (Token.read c rest).2) := by
      rwa [read_append]
    have hstep := byteSize_pos (read_text_ne_nil c rest)
    rw [h.scanFrom?_blanks, scanFrom?_def, hb]
    dsimp only
    rw [hspace, if_neg Bool.false_ne_true, hahead.token?_eq hb]
    dsimp only [reached]
    rw [if_pos (by omega), hsplit.slice]
    dsimp only
    rw [String.toList_ofList]
    split
    · rename_i what hk
      -- a token that is not closed takes the rest of the text
      have hrest : (Token.read c rest).2 = [] := by
        have hlexeme := lexeme_read .scanned hc rest
        rw [scanned_read] at hlexeme
        exact hlexeme.rest_of_unclosed hk
      have hpieces : r.pieces = [] := by
        show (Scan.ofChars (Token.read c rest).2).pieces = []
        rw [hrest, ofChars_blanks (List.forall_mem_nil _)]
      rw [hpieces]
      exact congrArg some (scannedFrom_unclosed pos (p := ⟨cs.takeWhile isSpace, (Token.read c rest).1⟩) hk).symm
    · rename_i hk
      rw [ih hsplit.append]
      exact congrArg some (scannedFrom_closed pos (p := ⟨cs.takeWhile isSpace, (Token.read c rest).1⟩) hk _).symm

end Scans

/-- The scan by bytes ends, and it finds the tokens of the scan by characters. -/
theorem scan?_eq (s : String) : scan? s = some (scanned (Scan.ofString s)) := by
  rw [scan?, (ahead_zero s).scanFrom?_eq, scanned_eq]
  rfl

/-! ## Tiles -/

/-- The token is what stands between its offsets. -/
structure Covers (s : String) (t : Spanned) : Prop where
  nonempty : t.start < t.stop
  within : t.stop ≤ s.utf8ByteSize
  start_boundary : IsBoundary s t.start
  stop_boundary : IsBoundary s t.stop
  slice_eq : slice? s t.start t.stop = some (String.ofList t.token.text)

/-- Tokens cover a text but for blanks. If one is not closed, it is the last one and the only such. -/
structure Tiles (s : String) (r : Scanned) : Prop where
  covers : ∀ t ∈ r.tokens, Covers s t
  ordered : r.tokens.Pairwise fun t u => t.stop ≤ u.start
  blank : ∀ pos b, byteAt? s pos = some b → (∀ t ∈ r.tokens, ¬(t.start ≤ pos ∧ pos < t.stop)) → isSpace b = true
  unclosed : ∀ what offset, r.unclosed? = some (what, offset) → ∃ front t, r.tokens = front ++ [t] ∧
    t.token.kind = .unclosed what ∧ t.start = offset ∧ t.stop = s.utf8ByteSize
  closed : r.unclosed? = none → ∀ t ∈ r.tokens, ∀ what, t.token.kind ≠ .unclosed what

section Pieces

variable {s : String} {offset : Nat} {ps : List Piece} {trailing : List Char}

theorem Ahead.cons {p : Piece} (h : Ahead s offset (Scan.text ⟨p :: ps, trailing⟩)) :
    Ahead s (offset + Scan.byteSize p.blanks) (p.token.text ++ Scan.text ⟨ps, trailing⟩) ∧
      Ahead s (offset + Scan.byteSize p.blanks + Scan.byteSize p.token.text) (Scan.text ⟨ps, trailing⟩) := by
  rw [text_cons] at h
  exact ⟨h.append, h.append.append⟩

theorem covers_spannedFrom (h : Ahead s offset (Scan.text ⟨ps, trailing⟩)) (hr : Readable ⟨ps, trailing⟩) :
    ∀ t ∈ spannedFrom offset ps, offset ≤ t.start ∧ Covers s t := by
  induction ps generalizing offset with
  | nil => exact List.forall_mem_nil _
  | cons p ps ih =>
    obtain ⟨-, hlexeme, hr⟩ := readable_cons.1 hr
    obtain ⟨hstart, hstop⟩ := h.cons
    have hsize := hstop.size
    have hpos := byteSize_pos hlexeme.text_ne_nil
    rw [spannedFrom, List.forall_mem_cons]
    refine ⟨⟨Nat.le_add_right _ _, Nat.lt_add_of_pos_right hpos, ?_, hstart.boundary, hstop.boundary, hstart.slice⟩,
      fun t ht => ?_⟩
    · dsimp only
      omega
    · obtain ⟨hle, hcovers⟩ := ih hstop hr t ht
      exact ⟨by omega, hcovers⟩

theorem ordered_spannedFrom (h : Ahead s offset (Scan.text ⟨ps, trailing⟩)) (hr : Readable ⟨ps, trailing⟩) :
    (spannedFrom offset ps).Pairwise fun t u => t.stop ≤ u.start := by
  induction ps generalizing offset with
  | nil => exact .nil
  | cons p ps ih =>
    obtain ⟨-, -, hr⟩ := readable_cons.1 hr
    obtain ⟨-, hstop⟩ := h.cons
    rw [spannedFrom, List.pairwise_cons]
    exact ⟨fun t ht => (covers_spannedFrom hstop hr t ht).1, ih hstop hr⟩

theorem Ahead.blank {blanks rest : List Char} (h : Ahead s offset (blanks ++ rest))
    (hblanks : ∀ c ∈ blanks, isSpace c = true) {pos : Nat} {b : Char} (hb : byteAt? s pos = some b)
    (hle : offset ≤ pos) (hlt : pos < offset + Scan.byteSize blanks) : isSpace b = true := by
  induction blanks generalizing offset with
  | nil => exact absurd hlt (Nat.not_lt.2 hle)
  | cons c blanks ih =>
    obtain ⟨hc, hblanks⟩ := List.forall_mem_cons.1 hblanks
    have hascii := ascii_of_wide isSpace_wide hc
    obtain ⟨hbyte, htail⟩ := h.ascii hascii
    rw [add_byteSize hascii] at hlt
    rcases Nat.eq_or_lt_of_le hle with rfl | hle
    · rw [hbyte] at hb
      rwa [← Option.some.inj hb]
    · exact ih htail hblanks hle hlt

theorem blank_spannedFrom (h : Ahead s offset (Scan.text ⟨ps, trailing⟩)) (hr : Readable ⟨ps, trailing⟩) {pos : Nat}
    {b : Char} (hb : byteAt? s pos = some b) (hle : offset ≤ pos)
    (hout : ∀ t ∈ spannedFrom offset ps, ¬(t.start ≤ pos ∧ pos < t.stop)) : isSpace b = true := by
  induction ps generalizing offset with
  | nil =>
    have hlt := lt_of_byteAt? hb
    have hsize := h.size
    rw [text_nil, ← List.append_nil trailing] at h
    rw [text_nil] at hsize
    exact h.blank (readable_nil.1 hr) hb hle (by omega)
  | cons p ps ih =>
    obtain ⟨hblanks, -, hr⟩ := readable_cons.1 hr
    obtain ⟨-, hstop⟩ := h.cons
    rw [spannedFrom, List.forall_mem_cons] at hout
    obtain ⟨hp, hout⟩ := hout
    by_cases hblank : pos < offset + Scan.byteSize p.blanks
    · rw [text_cons] at h
      exact h.blank hblanks hb hle hblank
    · have hle := Nat.le_of_not_lt fun hlt => hp ⟨Nat.le_of_not_lt hblank, hlt⟩
      exact ih hstop hr hle hout

/-- A token that is not closed runs up to the end of the text. -/
theorem unclosed_spannedFrom (h : Ahead s offset (Scan.text ⟨ps, trailing⟩)) (hr : Readable ⟨ps, trailing⟩)
    {what : Construct} {begin : Nat} (hopen : openIn? (spannedFrom offset ps) = some (what, begin)) :
    ∃ front t, spannedFrom offset ps = front ++ [t] ∧ t.token.kind = .unclosed what ∧ t.start = begin ∧
      t.stop = s.utf8ByteSize := by
  induction ps generalizing offset with
  | nil => cases hopen
  | cons p ps ih =>
    obtain ⟨-, hlexeme, hr⟩ := readable_cons.1 hr
    obtain ⟨-, hstop⟩ := h.cons
    have hreport : (scannedFrom offset (p :: ps)).unclosed? = some (what, begin) := hopen
    by_cases hp : ∃ construct, p.token.kind = .unclosed construct
    · obtain ⟨construct, hk⟩ := hp
      have htext := hlexeme.rest_of_unclosed hk
      obtain rfl := eq_nil_of_text hr htext
      rw [scannedFrom_unclosed offset hk] at hreport
      cases hreport
      rw [htext] at hstop
      exact ⟨[], _, rfl, hk, rfl, hstop.size⟩
    · rw [scannedFrom_closed offset (fun construct hk => hp ⟨construct, hk⟩)] at hreport
      obtain ⟨front, t, htokens, hlast⟩ := ih hstop hr hreport
      rw [spannedFrom, htokens]
      exact ⟨_ :: front, t, rfl, hlast⟩

theorem closed_of_openIn? {ts : List Spanned} (h : openIn? ts = none) :
    ∀ t ∈ ts, ∀ what, t.token.kind ≠ .unclosed what := by
  intro t ht what hk
  have hnone := List.findSome?_eq_none_iff.1 h t ht
  rw [hk] at hnone
  cases hnone

end Pieces

/-- The tokens of a text tile it. -/
theorem tiles_scanned (s : String) : Tiles s (scanned (Scan.ofString s)) := by
  have hr : Readable (Scan.ofString s) := readable_ofChars s.toList
  have hahead : Ahead s 0 (Scan.text (Scan.ofString s)) := by
    rw [Scan.ofString, Scan.text_ofChars]
    exact ahead_zero s
  rw [scanned_eq]
  exact {
    covers := fun t ht => (covers_spannedFrom hahead hr t ht).2
    ordered := ordered_spannedFrom hahead hr
    blank := fun pos b hb hout => blank_spannedFrom hahead hr hb (Nat.zero_le pos) hout
    unclosed := fun what offset hopen => unclosed_spannedFrom hahead hr hopen
    closed := closed_of_openIn? }

end SpatialQuery.Bytewise
