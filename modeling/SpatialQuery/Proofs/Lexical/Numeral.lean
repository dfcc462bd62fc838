import SpatialQuery.Proofs.Lexical.Rules

/-!
Reading numerals: `splitNumber` splits a text behind its longest numeral.
-/

namespace SpatialQuery.Lexical

open Token

theorem after_fst (cs : List Char) (r : List Char × List Char) : (after cs r).1 = cs ++ r.1 := rfl

theorem splitNumber_figure {point exponent sign : Bool} {c : Char} (h : isFigure c = true)
    (cs : List Char) :
    splitNumber point exponent sign (c :: cs) = after [c] (splitNumber point exponent false cs) := by
  unfold isFigure at h
  rw [splitNumber, if_pos]
  rw [h, Bool.true_or]

theorem splitNumber_figures {point exponent : Bool} {ds : List Char}
    (h : ∀ c ∈ ds, isFigure c = true) (cs : List Char) :
    splitNumber point exponent false (ds ++ cs) = after ds (splitNumber point exponent false cs) := by
  induction ds with
  | nil => simp [after]
  | cons d ds ih =>
    rw [List.cons_append, splitNumber_figure (h d (by simp)), ih fun c hc => h c (by simp [hc])]
    rfl

theorem splitNumber_point (cs : List Char) :
    splitNumber false false false ('.' :: cs) = after ['.'] (splitNumber true false false cs) := by
  rw [splitNumber]
  rfl

theorem startsExponent_append {sign ds : List Char} (cs : List Char)
    (hs : sign = [] ∨ sign = ['+'] ∨ sign = ['-']) (hd : IsFigures ds) :
    startsExponent (sign ++ ds ++ cs) = true := by
  obtain ⟨⟨c, hc, hcd⟩, -⟩ := hd
  cases ds with
  | nil => simp at hc
  | cons d ds =>
    simp only [List.head?_cons, Option.mem_def, Option.some.injEq] at hc
    subst hc
    rcases hs with rfl | rfl | rfl <;> simp [startsExponent, hcd]

theorem splitNumber_mark {point : Bool} {e : Char} (he : e = 'e' ∨ e = 'E') {cs : List Char}
    (h : startsExponent cs = true) :
    splitNumber point false false (e :: cs) = after [e] (splitNumber point true true cs) := by
  rcases he with rfl | rfl <;> simp [splitNumber, h]

theorem splitNumber_sign (point : Bool) {sign ds : List Char}
    (hs : sign = [] ∨ sign = ['+'] ∨ sign = ['-']) (hd : IsFigures ds) (cs : List Char) :
    splitNumber point true true (sign ++ ds ++ cs) =
      after (sign ++ ds) (splitNumber point true false cs) := by
  obtain ⟨⟨c, hc, hcd⟩, hall⟩ := hd
  cases ds with
  | nil => simp at hc
  | cons d ds =>
    have hd := hall d (by simp)
    have hds := fun c hc => hall c (List.mem_cons_of_mem d hc)
    have hrun : ∀ s, splitNumber point true s (d :: ds ++ cs) =
        after (d :: ds) (splitNumber point true false cs) := by
      intro s
      rw [List.cons_append, splitNumber_figure hd, splitNumber_figures hds]
      rfl
    have hsign : ∀ c, (c = '+' ∨ c = '-') → splitNumber point true true (c :: (d :: ds ++ cs)) =
        after (c :: d :: ds) (splitNumber point true false cs) := by
      intro c hc
      rw [splitNumber, if_pos (by rcases hc with rfl | rfl <;> rfl), hrun]
      rfl
    rcases hs with rfl | rfl | rfl
    · exact hrun true
    · exact hsign '+' (.inl rfl)
    · exact hsign '-' (.inr rfl)

/-! ## The text that is read is a numeral -/

theorem exponent_figures (point : Bool) (cs : List Char) :
    ∀ c ∈ (splitNumber point true false cs).1, isFigure c = true := by
  induction cs with
  | nil => simp [splitNumber]
  | cons c cs ih =>
    by_cases hc : isFigure c = true
    · rw [splitNumber_figure hc]
      simp only [after_fst, List.singleton_append, List.mem_cons, forall_eq_or_imp]
      exact ⟨hc, ih⟩
    · unfold isFigure at hc
      simp [splitNumber, hc]

theorem exponentPart_of_mark {point : Bool} {e : Char} (he : e = 'e' ∨ e = 'E') {cs : List Char}
    (h : startsExponent cs = true) : ExponentPart (e :: (splitNumber point true true cs).1) := by
  -- Once the exponent has begun, only figures follow.
  have hrun : ∀ s d ds, d.isDigit = true →
      IsFigures (splitNumber point true s (d :: ds)).1 := by
    intro s d ds hd
    have hf : isFigure d = true := by simp [isFigure, hd]
    rw [splitNumber_figure hf, after_fst]
    refine ⟨⟨d, by simp, hd⟩, ?_⟩
    simp only [List.singleton_append, List.mem_cons, forall_eq_or_imp]
    exact ⟨hf, exponent_figures point ds⟩
  match cs with
  | [] => simp [startsExponent] at h
  | c :: cs =>
    by_cases hc : c.isDigit = true
    · exact .mark he (.inl rfl) (hrun true c cs hc)
    · simp only [startsExponent, hc, Bool.false_or, Bool.and_eq_true, Bool.or_eq_true,
        beq_iff_eq] at h
      obtain ⟨hs, hd⟩ := h
      match cs with
      | [] => simp at hd
      | d :: ds =>
        simp only [List.head?_cons, Option.any_some] at hd
        rw [splitNumber, if_pos (by rcases hs with rfl | rfl <;> rfl), after_fst]
        refine .mark he ?_ (hrun false d ds hd)
        rcases hs with rfl | rfl
        · exact .inr (.inl rfl)
        · exact .inr (.inr rfl)

/-- What follows the first figures of a numeral: a fraction, if none was read, and an exponent. -/
theorem splitNumber_shape (point : Bool) (cs : List Char) :
    ∃ ds x, (∀ c ∈ ds, isFigure c = true) ∧ (splitNumber point false false cs).1 = ds ++ x ∧
      (ExponentPart x ∨ point = false ∧ ∃ fs y, (∀ c ∈ fs, isFigure c = true) ∧ ExponentPart y ∧
        x = '.' :: (fs ++ y)) := by
  -- by the next character: a figure, the first point, the mark of an exponent, or none of them
  induction cs generalizing point with
  | nil => exact ⟨[], [], by simp, by simp [splitNumber], .inl .none⟩
  | cons c cs ih =>
    by_cases hc : isFigure c = true
    · obtain ⟨ds, x, hds, he, hx⟩ := ih point
      refine ⟨c :: ds, x, ?_, ?_, hx⟩
      · simp only [List.mem_cons, forall_eq_or_imp]
        exact ⟨hc, hds⟩
      · rw [splitNumber_figure hc, after_fst, he]
        rfl
    by_cases hp : c = '.' ∧ point = false
    · obtain ⟨rfl, rfl⟩ := hp
      obtain ⟨fs, y, hfs, he, hy⟩ := ih true
      refine ⟨[], '.' :: (fs ++ y), by simp, ?_, .inr ⟨rfl, fs, y, hfs, by simpa using hy, rfl⟩⟩
      rw [splitNumber_point, after_fst, he]
      rfl
    by_cases he : (c = 'e' ∨ c = 'E') ∧ startsExponent cs = true
    · refine ⟨[], c :: (splitNumber point true true cs).1, by simp, ?_,
        .inl (exponentPart_of_mark he.1 he.2)⟩
      rw [splitNumber_mark he.1 he.2, after_fst]
      rfl
    · refine ⟨[], [], by simp, ?_, .inl .none⟩
      unfold isFigure at hc
      rw [splitNumber]
      simp only [Bool.false_and, Bool.or_false, Bool.not_false, Bool.and_true]
      rw [if_neg hc, if_neg, if_neg]
      · rfl
      · simpa using he
      · simpa using hp

/-- The characters that begin a numeral: a digit, or a point and a digit. -/
def startsNumeral (c : Char) (cs : List Char) : Bool :=
  c.isDigit || (c == '.' && cs.head?.any Char.isDigit)

theorem numeral_splitNumber {c : Char} {cs : List Char} (h : startsNumeral c cs = true) :
    Numeral (splitNumber false false false (c :: cs)).1 := by
  unfold startsNumeral at h
  -- From a first digit on, the loop reads figures, and behind them at most a fraction and an exponent.
  have hrun : ∀ point d es, d.isDigit = true → ∃ ds x, IsFigures ds ∧
      (splitNumber point false false (d :: es)).1 = ds ++ x ∧
      (ExponentPart x ∨ point = false ∧ ∃ fs y, (∀ c ∈ fs, isFigure c = true) ∧ ExponentPart y ∧
        x = '.' :: (fs ++ y)) := by
    intro point d es hd
    have hf : isFigure d = true := by simp [isFigure, hd]
    obtain ⟨ds, x, hds, he, hx⟩ := splitNumber_shape point es
    refine ⟨d :: ds, x, ⟨⟨d, by simp, hd⟩, ?_⟩, ?_, hx⟩
    · simp only [List.mem_cons, forall_eq_or_imp]
      exact ⟨hf, hds⟩
    · rw [splitNumber_figure hf, after_fst, he]
      rfl
  by_cases hc : c.isDigit = true
  · obtain ⟨ds, x, hds, he, hx | ⟨-, fs, y, hfs, hy, rfl⟩⟩ := hrun false c cs hc
    · exact ⟨ds, x, .whole hds, hx, he⟩
    · exact ⟨ds ++ '.' :: fs, y, .fraction hds hfs, hy, by simp [he]⟩
  · simp only [hc, Bool.false_or, Bool.and_eq_true, beq_iff_eq] at h
    obtain ⟨rfl, hd⟩ := h
    match cs with
    | [] => simp at hd
    | d :: es =>
      obtain ⟨ds, x, hds, he, hx⟩ := hrun true d es (by simpa using hd)
      refine ⟨'.' :: ds, x, .point hds, by simpa using hx, ?_⟩
      rw [splitNumber_point, after_fst, he]
      rfl

/-! ## No longer text is a numeral -/

theorem IsFigures.ne_nil {cs : List Char} (h : IsFigures cs) : cs ≠ [] := by
  obtain ⟨⟨c, hc, -⟩, -⟩ := h
  intro h
  simp [h] at hc

theorem ExponentPart.splitNumber_eq {point : Bool} {x : List Char} (h : ExponentPart x) :
    splitNumber point false false x = (x, []) := by
  cases h with
  | none => rfl
  | @mark e sign ds he hs hd =>
    have hstart := startsExponent_append [] hs hd
    have hsplit := splitNumber_sign point hs hd []
    rw [List.append_nil] at hstart hsplit
    rw [splitNumber_mark he hstart, hsplit]
    simp [splitNumber, after]

theorem Numeral.splitNumber_eq {cs : List Char} (h : Numeral cs) :
    splitNumber false false false cs = (cs, []) := by
  obtain ⟨m, x, hm, hx, rfl⟩ := h
  cases hm with
  | whole hd =>
    rw [splitNumber_figures hd.2, hx.splitNumber_eq]
    rfl
  | fraction hd hf =>
    rw [List.append_assoc, List.cons_append, splitNumber_figures hd.2, splitNumber_point,
      splitNumber_figures hf, hx.splitNumber_eq]
    rfl
  | point hd =>
    rw [List.cons_append, splitNumber_point, splitNumber_figures hd.2, hx.splitNumber_eq]
    rfl

theorem startsExponent_mono {ds cs : List Char} (h : ds <+: cs) (hd : startsExponent ds = true) :
    startsExponent cs = true := by
  obtain ⟨es, rfl⟩ := h
  match ds with
  | [] => simp [startsExponent] at hd
  | [d] =>
    simp only [startsExponent, List.head?_nil, Option.any_none, Bool.and_false, Bool.or_false] at hd
    simp [startsExponent, hd]
  | d :: d' :: ds => exact hd

/-- A text of which everything is read is also read where it is followed by more. -/
theorem prefix_splitNumber {point exponent sign : Bool} {ds cs : List Char} (h : ds <+: cs)
    (hd : (splitNumber point exponent sign ds).2 = []) :
    ds <+: (splitNumber point exponent sign cs).1 := by
  induction ds generalizing point exponent sign cs with
  | nil => exact List.nil_prefix
  | cons d ds ih =>
    obtain ⟨cs, rfl⟩ := h
    have hp : ds <+: ds ++ cs := List.prefix_append ds cs
    rw [splitNumber] at hd
    rw [List.cons_append, splitNumber]
    split at hd
    · rename_i h1
      rw [if_pos h1, after_fst, List.singleton_append, List.cons_prefix_cons]
      exact ⟨rfl, ih hp hd⟩
    rename_i h1
    rw [if_neg h1]
    split at hd
    · rename_i h2
      rw [if_pos h2, after_fst, List.singleton_append, List.cons_prefix_cons]
      exact ⟨rfl, ih hp hd⟩
    rename_i h2
    rw [if_neg h2]
    split at hd
    · rename_i h3
      simp only [Bool.and_eq_true] at h3
      rw [if_pos (by simp [h3, startsExponent_mono hp h3.2]), after_fst, List.singleton_append,
        List.cons_prefix_cons]
      exact ⟨rfl, ih hp hd⟩
    · simp at hd

/-- No digit and no underscore is left directly behind a numeral. -/
theorem splitNumber_stops (point exponent sign : Bool) (cs : List Char) :
    ∀ c ∈ (splitNumber point exponent sign cs).2.head?, isFigure c = false := by
  fun_induction splitNumber point exponent sign cs with
  | case1 => simp
  | case2 point exponent sign c cs h ih => exact ih
  | case3 point exponent sign c cs _ h ih => exact ih
  | case4 point exponent sign c cs _ _ h ih => exact ih
  | case5 point exponent sign c cs h =>
    rw [Bool.or_eq_true, not_or, Bool.not_eq_true] at h
    simpa [isFigure] using h.1

/-- The text that `splitNumber` takes is the longest numeral at the front. -/
theorem splitNumber_longest {cs ds : List Char} (h : Numeral ds) (hp : ds <+: cs) :
    ds.length ≤ (splitNumber false false false cs).1.length := by
  apply List.IsPrefix.length_le
  apply prefix_splitNumber hp
  rw [h.splitNumber_eq]

theorem splitNumber_of_longest {cs rest : List Char} (h : Numeral cs)
    (hl : ∀ ds, Numeral ds → ds <+: cs ++ rest → ds.length ≤ cs.length)
    (hs : Numeral (splitNumber false false false (cs ++ rest)).1) :
    splitNumber false false false (cs ++ rest) = (cs, rest) := by
  have happ := splitNumber_append false false false (cs ++ rest)
  have hpre : cs <+: (splitNumber false false false (cs ++ rest)).1 := by
    apply prefix_splitNumber (List.prefix_append cs rest)
    rw [h.splitNumber_eq]
  have hle := hl _ hs ⟨_, happ⟩
  have he := hpre.eq_of_length_le hle
  rw [← he, List.append_cancel_left_eq] at happ
  exact Prod.ext he.symm happ

theorem Numeral.startsNumeral {cs : List Char} (h : Numeral cs) (rest : List Char) :
    ∃ c ds, cs = c :: ds ∧ Lexical.startsNumeral c (ds ++ rest) = true := by
  have hrun : ∀ {ds}, IsFigures ds → ∃ c es, ds = c :: es ∧ c.isDigit = true := by
    rintro ds ⟨⟨c, hc, hd⟩, -⟩
    cases ds with
    | nil => simp at hc
    | cons d ds =>
      simp only [List.head?_cons, Option.mem_def, Option.some.injEq] at hc
      exact ⟨d, ds, rfl, hc ▸ hd⟩
  obtain ⟨m, x, hm, -, rfl⟩ := h
  cases hm with
  | whole hf =>
    obtain ⟨c, es, rfl, hc⟩ := hrun hf
    exact ⟨c, es ++ x, rfl, by simp [Lexical.startsNumeral, hc]⟩
  | @fraction _ ds hf =>
    obtain ⟨c, es, rfl, hc⟩ := hrun hf
    exact ⟨c, es ++ '.' :: ds ++ x, by simp, by simp [Lexical.startsNumeral, hc]⟩
  | point hf =>
    obtain ⟨c, es, rfl, hc⟩ := hrun hf
    exact ⟨'.', c :: es ++ x, rfl, by simp [Lexical.startsNumeral, hc]⟩

end SpatialQuery.Lexical
