import Mathlib.Data.List.TakeWhile
import SpatialQuery.Text.Case

/-!
The lower case of a text in two parts. Each part keeps its own lower case unless the form of a capital sigma beside the
cut depends on what is beyond it (`lowerChars_split`).
-/

namespace SpatialQuery.Text

/-- The characters that the context of a sigma passes over. -/
abbrev isIgnorable : Char → Bool :=
  inRanges caseIgnorableRanges

theorem isIgnorable_dot : isIgnorable '.' = true := by decide +kernel

/-! ## Cased beginnings -/

section StartsCased

variable {xs ys : List Char}

theorem startsCased_append_ignorable (h : ∀ c ∈ xs, isIgnorable c = true) :
    startsCased (xs ++ ys) = startsCased ys := by
  unfold startsCased
  rw [List.dropWhile_append_of_pos h]

theorem startsCased_append (h : ¬∀ c ∈ xs, isIgnorable c = true) : startsCased (xs ++ ys) = startsCased xs := by
  have hne : xs.dropWhile isIgnorable ≠ [] := fun hnil => h (List.dropWhile_eq_nil_iff.1 hnil)
  unfold startsCased
  rw [List.dropWhile_append, if_neg (by simpa using h)]
  cases hdrop : xs.dropWhile isIgnorable with
  | nil => exact absurd hdrop hne
  | cons c cs => rfl

theorem startsCased_ignorable (h : ∀ c ∈ xs, isIgnorable c = true) : startsCased xs = false := by
  rw [← List.append_nil xs, startsCased_append_ignorable h]
  rfl

/-- What follows matters where nothing but ignorable characters precedes it, and then if it is cased. -/
theorem startsCased_append_eq_iff :
    startsCased (xs ++ ys) = startsCased xs ↔ ((∀ c ∈ xs, isIgnorable c = true) → startsCased ys = false) := by
  by_cases h : ∀ c ∈ xs, isIgnorable c = true
  · rw [startsCased_append_ignorable h, startsCased_ignorable h]
    exact ⟨fun hys _ => hys, fun hys => hys h⟩
  · exact ⟨fun _ hxs => absurd hxs h, fun _ => startsCased_append h⟩

end StartsCased

/-! ## The part before a cut -/

/-- The lower case of the second text, between the first one read backwards and the third. -/
def lowerBetween : List Char → List Char → List Char → List Char
  | _, [], _ => []
  | before, c :: cs, behind =>
    (if c == 'Σ' then [if startsCased before && !startsCased (cs ++ behind) then 'ς' else 'σ'] else lowerOf c) ++
      lowerBetween (c :: before) cs behind

theorem lowerAfter_append (before xs ys : List Char) :
    lowerAfter before (xs ++ ys) = lowerBetween before xs ys ++ lowerAfter (xs.reverse ++ before) ys := by
  induction xs generalizing before with
  | nil => rfl
  | cons x xs ih => simp [lowerAfter, lowerBetween, ih]

/-- A list is cut at its first item or behind it. -/
theorem exists_cut_cons {α : Type} {a c : α} {xs : List α} {P : List α → List α → Prop} :
    (∃ u v, c :: xs = u ++ a :: v ∧ P u v) ↔ c = a ∧ P [] xs ∨ ∃ u v, xs = u ++ a :: v ∧ P (c :: u) v := by
  constructor
  · rintro ⟨u, v, hsplit, h⟩
    cases u with
    | nil =>
      obtain ⟨rfl, rfl⟩ := List.cons.inj hsplit
      exact .inl ⟨rfl, h⟩
    | cons d u =>
      obtain ⟨rfl, rfl⟩ := List.cons.inj hsplit
      exact .inr ⟨u, v, rfl, h⟩
  · rintro (⟨rfl, h⟩ | ⟨u, v, rfl, h⟩)
    · exact ⟨[], xs, rfl, h⟩
    · exact ⟨c :: u, v, rfl, h⟩

/-- A capital sigma ends a word in the second text, and the third one continues the word. -/
def ContinuesSigma (before xs behind : List Char) : Prop :=
  ∃ u v, xs = u ++ 'Σ' :: v ∧ startsCased (u.reverse ++ before) = true ∧ (∀ c ∈ v, isIgnorable c = true) ∧
    startsCased behind = true

theorem continuesSigma_cons {before xs behind : List Char} {c : Char} :
    ContinuesSigma before (c :: xs) behind ↔
      (c = 'Σ' ∧ startsCased before = true ∧ (∀ c ∈ xs, isIgnorable c = true) ∧ startsCased behind = true) ∨
        ContinuesSigma (c :: before) xs behind := by
  rw [ContinuesSigma, exists_cut_cons]
  simp [ContinuesSigma]

/-- The forms of two sigmas agree if their contexts do. -/
theorem sigma_eq_iff : ∀ {b b' x x' : Bool},
    ((if b && !x then 'ς' else 'σ') = if b' && !x' then 'ς' else 'σ') ↔ (b && !x) = (b' && !x') := by decide

theorem lowerBetween_eq_iff {before xs behind : List Char} :
    lowerBetween before xs behind = lowerAfter before xs ↔ ¬ContinuesSigma before xs behind := by
  induction xs generalizing before with
  | nil => simp [lowerBetween, lowerAfter, ContinuesSigma]
  | cons c xs ih =>
    rw [continuesSigma_cons, lowerBetween, lowerAfter]
    by_cases hc : c = 'Σ'
    · subst hc
      have hcontext : ((startsCased before && !startsCased (xs ++ behind)) = (startsCased before && !startsCased xs)) ↔
          ¬(startsCased before = true ∧ (∀ c ∈ xs, isIgnorable c = true) ∧ startsCased behind = true) := by
        cases startsCased before
        · simp
        · simp [startsCased_append_eq_iff]
      simp only [beq_self_eq_true, if_true, List.singleton_append, List.cons.injEq, sigma_eq_iff, hcontext, ih, not_or,
        true_and]
    · simp [hc, ih]

/-! ## The part behind a cut -/

/-- A capital sigma ends a word that begins in the third text: between them, read backwards, is the second one. -/
def EndsWord (before between xs : List Char) : Prop :=
  ∃ u v, xs = u ++ 'Σ' :: v ∧ (∀ c ∈ u.reverse ++ between, isIgnorable c = true) ∧ startsCased before = true ∧
    startsCased v = false

theorem endsWord_cons {before between xs : List Char} {c : Char} :
    EndsWord before between (c :: xs) ↔
      (c = 'Σ' ∧ (∀ c ∈ between, isIgnorable c = true) ∧ startsCased before = true ∧ startsCased xs = false) ∨
        EndsWord before (c :: between) xs := by
  rw [EndsWord, exists_cut_cons]
  simp [EndsWord]

theorem lowerAfter_eq_iff {before between xs : List Char} :
    lowerAfter (between ++ before) xs = lowerAfter between xs ↔ ¬EndsWord before between xs := by
  induction xs generalizing between with
  | nil => simp [lowerAfter, EndsWord]
  | cons c xs ih =>
    have hrest := @ih (c :: between)
    rw [List.cons_append] at hrest
    rw [endsWord_cons, lowerAfter, lowerAfter]
    by_cases hc : c = 'Σ'
    · subst hc
      have hcontext : ((startsCased (between ++ before) && !startsCased xs) = (startsCased between && !startsCased xs)) ↔
          ¬((∀ c ∈ between, isIgnorable c = true) ∧ startsCased before = true ∧ startsCased xs = false) := by
        cases startsCased xs
        · simp [startsCased_append_eq_iff]
        · simp
      simp only [beq_self_eq_true, if_true, List.singleton_append, List.cons.injEq, sigma_eq_iff, hcontext, hrest, not_or,
        true_and]
    · simp [hc, hrest]

/-! ## Cuts at dots -/

/-- The form of a capital sigma beside the dot between two texts depends on what is beyond the dot. -/
def SigmaAtDot (xs ys : List Char) : Prop :=
  ContinuesSigma [] xs ys ∨ EndsWord xs.reverse [] ys

theorem startsCased_dot (xs : List Char) : startsCased ('.' :: xs) = startsCased xs := by
  have hdot : ∀ c ∈ ['.'], isIgnorable c = true := by simp [isIgnorable_dot]
  exact startsCased_append_ignorable hdot

theorem lowerChars_dot (xs ys : List Char) :
    lowerChars (xs ++ '.' :: ys) = lowerBetween [] xs ('.' :: ys) ++ '.' :: lowerAfter ('.' :: xs.reverse) ys := by
  rw [lowerChars, lowerAfter_append, lowerAfter]
  simp [lowerOf]

/-- Around a dot both parts have their own lower case unless there is such a sigma. -/
theorem lowerChars_split {xs ys : List Char} :
    lowerBetween [] xs ('.' :: ys) = lowerChars xs ∧ lowerAfter ('.' :: xs.reverse) ys = lowerChars ys ↔
      ¬SigmaAtDot xs ys := by
  have hbefore : ContinuesSigma [] xs ('.' :: ys) ↔ ContinuesSigma [] xs ys := by
    simp only [ContinuesSigma, startsCased_dot]
  have hbehind : EndsWord ('.' :: xs.reverse) [] ys ↔ EndsWord xs.reverse [] ys := by
    simp only [EndsWord, startsCased_dot]
  rw [lowerChars, lowerChars, lowerBetween_eq_iff, ← List.nil_append ('.' :: xs.reverse), lowerAfter_eq_iff, hbefore,
    hbehind, ← not_or]
  rfl

/-! ## Dots in lower case -/

theorem lt_of_mem_lowerRanges : ∀ r ∈ lowerRanges, (46 : Int) < r.first + r.shift := by
  decide +kernel

theorem eq_dot_of_simpleCase {c : Char} (h : simpleCase lowerRanges c = '.') : c = '.' := by
  unfold simpleCase at h
  cases hfind : lowerRanges.findSome? (·.map? c.toNat) with
  | none => simpa [hfind] using h
  | some n =>
    rw [hfind, Option.map_some, Option.getD_some] at h
    obtain ⟨r, hr, hmap⟩ := List.exists_of_findSome?_eq_some hfind
    have hn : n = 46 := by
      by_cases hvalid : n.isValidChar
      · have haux : Char.ofNatAux n hvalid = '.' := (dif_pos hvalid).symm.trans h
        exact congrArg Char.toNat haux
      · have hzero : Char.ofNatAux 0 (by decide) = '.' := (dif_neg hvalid).symm.trans h
        exact absurd hzero (by decide)
    unfold CaseRange.map? at hmap
    split at hmap
    · rename_i hrange
      simp only [Bool.and_eq_true, decide_eq_true_eq] at hrange
      have hshift := lt_of_mem_lowerRanges r hr
      have hsum := Option.some.inj hmap
      omega
    · cases hmap

theorem eq_dot_of_toLower {c : Char} (hascii : c.toNat < 128) (h : c.toLower = '.') : c = '.' := by
  have hall : ∀ n < 128, (Char.ofNat n).toLower = '.' → Char.ofNat n = '.' := by decide
  have hc := hall c.toNat hascii
  rw [Char.ofNat_toNat] at hc
  exact hc h

/-- Nothing but a dot has a dot in its lower case. -/
theorem eq_dot_of_mem_lowerOf {c : Char} (h : '.' ∈ lowerOf c) : c = '.' := by
  unfold lowerOf at h
  split at h
  · rename_i hascii
    exact eq_dot_of_toLower hascii (List.mem_singleton.1 h).symm
  · split at h
    · simp at h
    · exact eq_dot_of_simpleCase (List.mem_singleton.1 h).symm

theorem dot_notMem_lowerBetween {before xs behind : List Char} (h : '.' ∉ xs) : '.' ∉ lowerBetween before xs behind := by
  induction xs generalizing before with
  | nil => exact List.not_mem_nil
  | cons c xs ih =>
    rw [List.mem_cons, not_or] at h
    rw [lowerBetween, List.mem_append, not_or]
    refine ⟨fun hc => ?_, ih h.2⟩
    split at hc
    · split at hc <;> simp at hc
    · exact h.1 (eq_dot_of_mem_lowerOf hc).symm

theorem dot_notMem_lowerChars {cs : List Char} (h : '.' ∉ cs) : '.' ∉ lowerChars cs := by
  have happend := lowerAfter_append [] cs []
  rw [List.append_nil, lowerAfter, List.append_nil] at happend
  rw [lowerChars, happend]
  exact dot_notMem_lowerBetween h

theorem lowerChars_ne_nil {cs : List Char} (h : cs ≠ []) : lowerChars cs ≠ [] := by
  cases cs with
  | nil => exact absurd rfl h
  | cons c cs =>
    rw [lowerChars, lowerAfter]
    refine List.append_ne_nil_of_left_ne_nil ?_ _
    split
    · simp
    · unfold lowerOf
      split
      · simp
      · split <;> simp

end SpatialQuery.Text
