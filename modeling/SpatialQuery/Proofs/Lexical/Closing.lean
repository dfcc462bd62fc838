import SpatialQuery.Proofs.Lexical.Rules

/-!
Finding the mark that closes a construct: a closing mark is found exactly where the rules put it, and
none is found only where the construct cannot be closed.
-/

namespace SpatialQuery.Lexical

open Token

theorem map_after_eq_some {cs body rest : List Char} {o : Option (List Char × List Char)}
    (h : o.map (after cs) = some (body, rest)) :
    ∃ body', o = some (body', rest) ∧ body = cs ++ body' := by
  obtain ⟨⟨body', rest'⟩, ho, he⟩ := Option.map_eq_some_iff.1 h
  simp only [after, Prod.mk.injEq] at he
  obtain ⟨rfl, rfl⟩ := he
  exact ⟨body', ho, rfl⟩

/-! ## Quoted texts -/

theorem closeQuote?_sound {q : Char} {escapes : Bool} {cs body rest : List Char}
    (h : closeQuote? q escapes cs = some (body, rest)) : Opening.ClosesQuote q escapes body rest := by
  fun_induction closeQuote? q escapes cs generalizing body with
  | case1 => simp at h
  | case2 c hc =>
    simp only [Option.some.injEq, Prod.mk.injEq] at h
    obtain ⟨rfl, rfl⟩ := h
    exact ⟨[], .nil, by simp [eq_of_beq hc], by simp⟩
  | case3 => simp at h
  | case4 c d cs hc ih =>
    obtain ⟨body', ho, rfl⟩ := map_after_eq_some h
    obtain ⟨inner, hi, rfl, hr⟩ := ih ho
    simp only [Bool.and_eq_true, beq_iff_eq] at hc
    obtain ⟨he, rfl⟩ := hc
    exact ⟨'\\' :: d :: inner, .escaped he hi, rfl, hr⟩
  | case5 c d cs _ hc hd ih =>
    obtain ⟨body', ho, rfl⟩ := map_after_eq_some h
    obtain ⟨inner, hi, rfl, hr⟩ := ih ho
    rw [eq_of_beq hc, eq_of_beq hd]
    exact ⟨q :: q :: inner, .doubled hi, rfl, hr⟩
  | case6 c d cs _ hc hd =>
    simp only [Option.some.injEq, Prod.mk.injEq] at h
    obtain ⟨rfl, rfl⟩ := h
    exact ⟨[], .nil, by simp [eq_of_beq hc], by simpa using hd⟩
  | case7 c d cs he hc ih =>
    obtain ⟨body', ho, rfl⟩ := map_after_eq_some h
    obtain ⟨inner, hi, rfl, hr⟩ := ih ho
    simp only [Bool.and_eq_true, beq_iff_eq] at he hc
    exact ⟨c :: inner, .plain hc he hi, rfl, hr⟩

theorem closeQuote?_complete {q : Char} {escapes : Bool} {cs rest : List Char}
    (hq : q ≠ '\\') (h : Quoted q escapes cs) (hr : rest.head? ≠ some q) :
    closeQuote? q escapes (cs ++ q :: rest) = some (cs ++ [q], rest) := by
  induction h with
  | nil => cases rest <;> simp_all [closeQuote?]
  | doubled _ ih => simp [closeQuote?, hq, ih, after]
  | escaped he _ ih =>
    subst he
    simp [closeQuote?, ih, after]
  | @plain c cs hc he _ ih =>
    obtain ⟨d, ds, hd⟩ : ∃ d ds, cs ++ q :: rest = d :: ds := by cases cs <;> simp
    rw [List.cons_append, hd, closeQuote?]
    simp only [Bool.and_eq_true, beq_iff_eq, he, hc, ↓reduceIte]
    rw [← hd, ih]
    rfl

theorem closeQuote?_iff {q : Char} {escapes : Bool} {cs body rest : List Char} (hq : q ≠ '\\') :
    closeQuote? q escapes cs = some (body, rest) ↔
      Opening.ClosesQuote q escapes body rest ∧ body ++ rest = cs := by
  constructor
  · intro h
    exact ⟨closeQuote?_sound h, closeQuote?_append h⟩
  · rintro ⟨⟨inner, hi, rfl, hr⟩, rfl⟩
    simpa using closeQuote?_complete hq hi hr

/-! ## Comments -/

theorem closeComment?_sound {depth : Nat} {cs body rest : List Char}
    (h : closeComment? depth cs = some (body, rest)) : CommentRest depth body := by
  fun_induction closeComment? depth cs generalizing body with
  | case1 => simp at h
  | case2 => simp at h
  | case3 depth c d cs hc ih =>
    obtain ⟨body', ho, rfl⟩ := map_after_eq_some h
    simp only [Bool.and_eq_true, beq_iff_eq] at hc
    obtain ⟨rfl, rfl⟩ := hc
    exact .enter (ih ho)
  | case4 c d cs _ hc =>
    simp only [Option.some.injEq, Prod.mk.injEq] at h
    simp only [Bool.and_eq_true, beq_iff_eq] at hc
    obtain ⟨rfl, rfl⟩ := hc
    exact h.1 ▸ .close
  | case5 c d cs _ hc depth ih =>
    obtain ⟨body', ho, rfl⟩ := map_after_eq_some h
    simp only [Bool.and_eq_true, beq_iff_eq] at hc
    obtain ⟨rfl, rfl⟩ := hc
    exact .leave (ih ho)
  | case6 depth c d cs ho hc ih =>
    obtain ⟨body', hb, rfl⟩ := map_after_eq_some h
    have ha := closeComment?_append hb
    simp only [Bool.and_eq_true, beq_iff_eq] at ho hc
    have hi := ih hb
    cases body' with
    | nil => cases hi
    | cons e es =>
      -- the rest begins with the next character, so no mark begins with this one
      obtain rfl : e = d := (List.cons.inj ha).1
      apply CommentRest.other _ _ hi
      · intro hp
        simp only [List.cons_prefix_cons] at hp
        exact ho ⟨hp.1.symm, hp.2.1.symm⟩
      · intro hp
        simp only [List.cons_prefix_cons] at hp
        exact hc ⟨hp.1.symm, hp.2.1.symm⟩

theorem CommentRest.ne_nil {depth : Nat} {cs : List Char} (h : CommentRest depth cs) : cs ≠ [] := by
  cases h <;> simp

theorem closeComment?_complete {depth : Nat} {cs : List Char} (rest : List Char)
    (h : CommentRest depth cs) : closeComment? depth (cs ++ rest) = some (cs, rest) := by
  induction h with
  | close => simp [closeComment?]
  | leave _ ih => simp [closeComment?, ih, after]
  | enter _ ih => simp [closeComment?, ih, after]
  | @other depth c cs ho hc hi ih =>
    obtain ⟨d, ds, rfl⟩ := List.exists_cons_of_ne_nil hi.ne_nil
    simp only [List.cons_prefix_cons, List.nil_prefix, and_true, not_and] at ho hc
    have ho' : ¬(c = '/' ∧ d = '*') := fun ⟨h, h'⟩ => ho h.symm h'.symm
    have hc' : ¬(c = '*' ∧ d = '/') := fun ⟨h, h'⟩ => hc h.symm h'.symm
    rw [List.cons_append, List.cons_append, closeComment?.eq_def]
    simp only [Bool.and_eq_true, beq_iff_eq, ho', hc', ↓reduceIte]
    rw [← List.cons_append, ih]
    rfl

theorem closeComment?_iff {depth : Nat} {cs body rest : List Char} :
    closeComment? depth cs = some (body, rest) ↔ CommentRest depth body ∧ body ++ rest = cs := by
  constructor
  · intro h
    exact ⟨closeComment?_sound h, closeComment?_append h⟩
  · rintro ⟨h, rfl⟩
    exact closeComment?_complete rest h

/-! ## Tagged texts -/

theorem closeDelimiter?_sound {tag cs body rest : List Char}
    (h : closeDelimiter? (delimiter tag) cs = some (body, rest)) : Opening.ClosesTagged tag body := by
  induction cs generalizing body with
  | nil => simp [closeDelimiter?] at h
  | cons c cs ih =>
    rw [closeDelimiter?] at h
    split at h
    · simp only [Option.some.injEq, Prod.mk.injEq] at h
      exact ⟨[], by simp [← h.1], by simp⟩
    · rename_i hp
      obtain ⟨body', ho, rfl⟩ := map_after_eq_some h
      have ha := closeDelimiter?_append ho
      obtain ⟨inner, rfl, hi⟩ := ih ho
      refine ⟨c :: inner, rfl, ?_⟩
      intro i hl hd
      cases i with
      | zero =>
        apply hp
        rw [List.isPrefixOf_iff_prefix]
        simp only [List.singleton_append, List.drop_zero] at hd
        exact hd.trans (by simp [← ha])
      | succ i => exact hi i (by simpa using hl) (by simpa using hd)

theorem closeDelimiter?_complete {tag cs : List Char} (rest : List Char)
    (h : ∀ i < cs.length, ¬delimiter tag <+: (cs ++ delimiter tag).drop i) :
    closeDelimiter? (delimiter tag) (cs ++ delimiter tag ++ rest) =
      some (cs ++ delimiter tag, rest) := by
  induction cs with
  | nil => simp [delimiter, closeDelimiter?]
  | cons c cs ih =>
    have hc : ¬(delimiter tag).isPrefixOf (c :: (cs ++ delimiter tag ++ rest)) = true := by
      rw [List.isPrefixOf_iff_prefix]
      intro hp
      apply h 0 (by simp)
      apply List.prefix_of_prefix_length_le hp
      · simp
      · simp only [List.cons_append, List.drop_zero, List.length_cons, List.length_append]
        omega
    have ht := ih fun i hi => by simpa using h (i + 1) (by simpa using hi)
    rw [List.cons_append, List.cons_append, closeDelimiter?, if_neg hc, ht]
    rfl

theorem closeDelimiter?_iff {tag cs body rest : List Char} :
    closeDelimiter? (delimiter tag) cs = some (body, rest) ↔
      Opening.ClosesTagged tag body ∧ body ++ rest = cs := by
  constructor
  · intro h
    exact ⟨closeDelimiter?_sound h, closeDelimiter?_append h⟩
  · rintro ⟨⟨inner, rfl, hi⟩, rfl⟩
    exact closeDelimiter?_complete rest hi

/-! ## All constructs -/

namespace Opening

/-- Splits a text behind the mark that closes the construct. -/
def close? : Opening → List Char → Option (List Char × List Char)
  | string, cs => closeQuote? '\'' false cs
  | escapeString _, cs => closeQuote? '\'' true cs
  | identifier, cs => closeQuote? '"' false cs
  | comment, cs => closeComment? 0 cs
  | tagged tag, cs => closeDelimiter? (delimiter tag) cs

theorem close?_iff {o : Opening} {cs body rest : List Char} :
    o.close? cs = some (body, rest) ↔ o.Closes body rest ∧ body ++ rest = cs := by
  cases o with
  | string => exact closeQuote?_iff (by decide)
  | escapeString => exact closeQuote?_iff (by decide)
  | identifier => exact closeQuote?_iff (by decide)
  | comment => exact closeComment?_iff
  | tagged => exact closeDelimiter?_iff

theorem close?_eq_none {o : Opening} {cs : List Char} :
    o.close? cs = none ↔ ∀ body rest, o.Closes body rest → body ++ rest ≠ cs := by
  rw [Option.eq_none_iff_forall_not_mem]
  constructor
  · intro h body rest hc he
    exact h (body, rest) (close?_iff.2 ⟨hc, he⟩)
  · rintro h ⟨body, rest⟩ ho
    obtain ⟨hc, he⟩ := close?_iff.1 ho
    exact h body rest hc he

/-- The token that the construct is, with the text behind it. -/
def read (o : Opening) (cs : List Char) : Token × List Char :=
  ofClosing o.kind o.construct o.text cs (o.close? cs)

theorem read_append (o : Opening) (cs : List Char) :
    (o.read cs).1.text ++ (o.read cs).2 = o.text ++ cs :=
  ofClosing_append fun _ hr => (close?_iff.1 hr).2

theorem lexeme_read {R : Rules} {o : Opening} (h : o.Allowed R) (cs : List Char) :
    Lexeme R (o.read cs).1 (o.read cs).2 := by
  unfold read
  cases hc : o.close? cs with
  | none => exact .unclosed h (close?_eq_none.1 hc)
  | some r => exact .closed h (close?_iff.1 hc).1

theorem read_of_closes {o : Opening} {body rest : List Char} (h : o.Closes body rest) :
    o.read (body ++ rest) = (⟨o.kind, o.text ++ body⟩, rest) := by
  rw [read, close?_iff.2 ⟨h, rfl⟩]
  rfl

theorem read_of_not_closes {o : Opening} {cs : List Char}
    (h : ∀ body rest, o.Closes body rest → body ++ rest ≠ cs) :
    o.read cs = (⟨.unclosed o.construct, o.text ++ cs⟩, []) := by
  rw [read, close?_eq_none.2 h]
  rfl

end Opening

/-! ## Last characters -/

theorem CommentRest.concat {depth : Nat} {cs : List Char} (h : CommentRest depth cs) : ∃ ds, cs = ds ++ ['/'] := by
  induction h with
  | close => exact ⟨['*'], rfl⟩
  | leave _ ih => obtain ⟨ds, rfl⟩ := ih; exact ⟨_ :: _ :: ds, rfl⟩
  | enter _ ih => obtain ⟨ds, rfl⟩ := ih; exact ⟨_ :: _ :: ds, rfl⟩
  | other _ _ _ ih => obtain ⟨ds, rfl⟩ := ih; exact ⟨_ :: ds, rfl⟩

/-- The characters that end closing marks. -/
def closingMarks : List Char :=
  ['\'', '"', '/', '$']

theorem Opening.closes_concat {o : Opening} {body rest : List Char} (h : o.Closes body rest) :
    ∃ ds c, body = ds ++ [c] ∧ c ∈ closingMarks := by
  cases o with
  | string => obtain ⟨cs, -, rfl, -⟩ := h; exact ⟨cs, '\'', rfl, by decide⟩
  | escapeString e => obtain ⟨cs, -, rfl, -⟩ := h; exact ⟨cs, '\'', rfl, by decide⟩
  | identifier => obtain ⟨cs, -, rfl, -⟩ := h; exact ⟨cs, '"', rfl, by decide⟩
  | comment => obtain ⟨ds, rfl⟩ := CommentRest.concat h; exact ⟨ds, '/', rfl, by decide⟩
  | tagged tag =>
    obtain ⟨cs, rfl, -⟩ := h
    exact ⟨cs ++ '$' :: tag, '$', by simp [delimiter], by decide⟩

end SpatialQuery.Lexical
