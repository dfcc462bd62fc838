import SpatialQuery.View.Template

/-!
What a server makes of a view: it replaces the references to parameters by values, in one pass over the
text. The values a parameter takes are those that match its regular expression.
-/

namespace SpatialQuery.View

/-- Parameters with the values given to them. -/
abbrev Assignment := List (ViewParameter × List Char)

/-- The text with its references replaced, from left to right. The first `skip` characters belong to a
reference that has been replaced. -/
def substitute (fs : Assignment) : Nat → List Char → List Char
  | _, [] => []
  | skip + 1, _ :: cs => substitute fs skip cs
  | 0, c :: cs =>
    match fs.find? fun f => f.1.reference.toList.isPrefixOf (c :: cs) with
    | some f => f.2 ++ substitute fs (f.1.reference.toList.length - 1) cs
    | none => c :: substitute fs 0 cs

/-- The text the server runs when the parameters take these values. -/
def filled (v : View) (values : List (List Char)) : List Char :=
  substitute (v.parameters.zip values) 0 v.sql.toList

/-- Every value matches the regular expression of its parameter. -/
def Admissible (ps : List ViewParameter) (values : List (List Char)) : Prop :=
  values.length = ps.length ∧
    ∀ f ∈ ps.zip values, (ParameterKind.ofValidator f.1.validator).accepts (String.ofList f.2) = true

/-- The reference to the parameter of a placeholder. -/
def referenceTo (number : Nat) : List Char :=
  '%' :: 'p' :: (Text.ofNat number ++ ['%'])

theorem reference_ofValue (number : Nat) (v : Value) :
    (ViewParameter.ofValue number v).reference.toList = referenceTo number := by
  change ("%" ++ ("p" ++ number.repr) ++ "%").toList = _
  simp [referenceTo, Text.ofNat]

/-- The parameters are numbered, so that no reference begins another one. -/
def Numbered (fs : Assignment) : Prop :=
  ∀ i f, fs[i]? = some f → f.1.reference.toList = referenceTo (i + 1)

theorem eq_of_referenceTo_begins {m n : Nat} {rest : List Char}
    (h : referenceTo m <+: referenceTo n ++ rest) : m = n := by
  have hrun : ∀ k (cs : List Char), (Text.ofNat k ++ '%' :: cs).takeWhile Char.isDigit = Text.ofNat k := by
    intro k cs
    rw [List.takeWhile_append_of_pos Text.isDigit_ofNat]
    simp
  obtain ⟨more, he⟩ := h
  simp only [referenceTo, List.cons_append, List.append_assoc, List.nil_append, List.cons.injEq,
    true_and] at he
  have ht := congrArg (List.takeWhile Char.isDigit) he
  rw [hrun, hrun] at ht
  exact Text.ofNat_injective ht

theorem Numbered.exists_of_mem {fs : Assignment} (h : Numbered fs) {f : ViewParameter × List Char}
    (hf : f ∈ fs) : ∃ i, fs[i]? = some f ∧ f.1.reference.toList = referenceTo (i + 1) := by
  obtain ⟨i, hi⟩ := List.mem_iff_getElem?.1 hf
  exact ⟨i, hi, h i f hi⟩

/-! ## Steps of the pass -/

theorem substitute_skip (fs : Assignment) (skip : Nat) (cs : List Char) :
    substitute fs skip cs = substitute fs 0 (cs.drop skip) := by
  induction skip generalizing cs with
  | zero => rfl
  | succ skip ih =>
    cases cs with
    | nil => rfl
    | cons c cs => exact ih cs

/-- A reference is replaced by the value of its parameter. -/
theorem substitute_reference {fs : Assignment} (hn : Numbered fs) {f : ViewParameter × List Char}
    (hf : f ∈ fs) (rest : List Char) :
    substitute fs 0 (f.1.reference.toList ++ rest) = f.2 ++ substitute fs 0 rest := by
  obtain ⟨i, hi, href⟩ := hn.exists_of_mem hf
  have hfind : fs.find? (fun g => g.1.reference.toList.isPrefixOf (f.1.reference.toList ++ rest)) =
      some f := by
    cases hg : fs.find? (fun g => g.1.reference.toList.isPrefixOf (f.1.reference.toList ++ rest)) with
    | none =>
      have := List.find?_eq_none.1 hg f hf
      simp at this
    | some g =>
      obtain ⟨j, hj, hgref⟩ := hn.exists_of_mem (List.mem_of_find?_eq_some hg)
      have hp := List.find?_some hg
      rw [List.isPrefixOf_iff_prefix, href, hgref] at hp
      obtain rfl : j = i := Nat.succ.inj (eq_of_referenceTo_begins hp)
      exact hj.symm.trans hi
  rw [href] at hfind ⊢
  rw [referenceTo, List.cons_append] at hfind ⊢
  rw [substitute, hfind]
  simp only [href, referenceTo, substitute_skip fs (_ - 1)]
  simp

theorem substitute_cons {fs : Assignment} {c : Char} {cs : List Char}
    (h : ∀ f ∈ fs, ¬f.1.reference.toList <+: c :: cs) :
    substitute fs 0 (c :: cs) = c :: substitute fs 0 cs := by
  rw [substitute, List.find?_eq_none.2]
  intro f hf
  rw [List.isPrefixOf_iff_prefix]
  exact h f hf

/-- One pass over a text: references are replaced, and where none begins a character is kept. -/
inductive Pass (fs : Assignment) : List Char → Prop
  | nil : Pass fs []
  | replace {f : ViewParameter × List Char} {cs : List Char} :
      f ∈ fs → Pass fs cs → Pass fs (f.1.reference.toList ++ cs)
  | keep {c : Char} {cs : List Char} :
      (∀ f ∈ fs, ¬f.1.reference.toList <+: c :: cs) → Pass fs cs → Pass fs (c :: cs)

theorem Numbered.length_reference {fs : Assignment} (h : Numbered fs) {f : ViewParameter × List Char}
    (hf : f ∈ fs) : 3 ≤ f.1.reference.toList.length := by
  obtain ⟨i, -, href⟩ := h.exists_of_mem hf
  rw [href, referenceTo]
  simp only [List.length_cons, List.length_append, List.length_nil]
  omega

theorem pass_of_numbered {fs : Assignment} (h : Numbered fs) (cs : List Char) : Pass fs cs := by
  induction hn : cs.length using Nat.strongRecOn generalizing cs with
  | ind n ih =>
    cases cs with
    | nil => exact .nil
    | cons c cs =>
      by_cases hex : ∃ f ∈ fs, f.1.reference.toList <+: c :: cs
      · obtain ⟨f, hf, rest, he⟩ := hex
        have hlen := congrArg List.length he
        have hpos := h.length_reference hf
        rw [List.length_append] at hlen
        rw [← he]
        exact .replace hf (ih rest.length (by omega) rest rfl)
      · refine .keep (fun f hf hp => hex ⟨f, hf, hp⟩) (ih cs.length ?_ cs rfl)
        rw [← hn, List.length_cons]
        omega

/-! ## Texts one behind the other -/

/-- No reference begins in `cs` and ends in `rest`. -/
def Clean (fs : Assignment) (cs rest : List Char) : Prop :=
  ∀ ds es, cs = ds ++ es → es ≠ [] → ∀ f ∈ fs, f.1.reference.toList <+: es ++ rest →
    f.1.reference.toList <+: es

/-- No reference stands in the text. -/
def Unreferenced (fs : Assignment) (cs : List Char) : Prop :=
  ∀ ds es, cs = ds ++ es → ∀ f ∈ fs, ¬f.1.reference.toList <+: es

theorem Clean.of_append {fs : Assignment} (bs : List Char) {cs rest : List Char}
    (h : Clean fs (bs ++ cs) rest) : Clean fs cs rest := by
  rintro ds es rfl
  exact h (bs ++ ds) es (List.append_assoc ..).symm

theorem Unreferenced.of_append {fs : Assignment} (bs : List Char) {cs : List Char}
    (h : Unreferenced fs (bs ++ cs)) : Unreferenced fs cs := by
  rintro ds es rfl
  exact h (bs ++ ds) es (List.append_assoc ..).symm

theorem substitute_append {fs : Assignment} (hn : Numbered fs) {cs rest : List Char}
    (h : Clean fs cs rest) :
    substitute fs 0 (cs ++ rest) = substitute fs 0 cs ++ substitute fs 0 rest := by
  have hp := pass_of_numbered hn cs
  induction hp with
  | nil => rfl
  | @replace f cs hf _ ih =>
    rw [List.append_assoc, substitute_reference hn hf, substitute_reference hn hf, ih (h.of_append _),
      List.append_assoc]
  | @keep c cs hkeep _ ih =>
    have hkeep' : ∀ f ∈ fs, ¬f.1.reference.toList <+: c :: (cs ++ rest) := fun f hf hp =>
      hkeep f hf (h [] (c :: cs) rfl (by simp) f hf hp)
    rw [List.cons_append, substitute_cons hkeep', substitute_cons hkeep,
      ih (Clean.of_append [c] h), List.cons_append]

theorem substitute_of_unreferenced {fs : Assignment} (hn : Numbered fs) {cs : List Char}
    (h : Unreferenced fs cs) : substitute fs 0 cs = cs := by
  have hp := pass_of_numbered hn cs
  induction hp with
  | nil => rfl
  | @replace f cs hf => exact absurd (List.prefix_append _ cs) (h [] _ rfl f hf)
  | @keep c cs hkeep _ ih => rw [substitute_cons hkeep, ih (Unreferenced.of_append [c] h)]

theorem count_reference {fs : Assignment} (hn : Numbered fs) {f : ViewParameter × List Char}
    (hf : f ∈ fs) : 2 ≤ f.1.reference.toList.count '%' := by
  obtain ⟨i, -, href⟩ := hn.exists_of_mem hf
  rw [href, referenceTo]
  simp only [List.count_cons, List.count_append, List.count_nil]
  simp

/-- Values without percent signs take away those of the references. -/
theorem count_substitute_le {fs : Assignment} (hn : Numbered fs) (hv : ∀ f ∈ fs, '%' ∉ f.2)
    (cs : List Char) : (substitute fs 0 cs).count '%' ≤ cs.count '%' := by
  have hp := pass_of_numbered hn cs
  induction hp with
  | nil => exact Nat.le_refl _
  | @replace f cs hf _ ih =>
    rw [substitute_reference hn hf, List.count_append, List.count_append,
      List.count_eq_zero.2 (hv f hf)]
    omega
  | @keep c cs hkeep _ ih =>
    rw [substitute_cons hkeep, List.count_cons, List.count_cons]
    omega

theorem count_substitute_lt {fs : Assignment} (hn : Numbered fs) (hv : ∀ f ∈ fs, '%' ∉ f.2)
    {cs : List Char} (h : ¬Unreferenced fs cs) : (substitute fs 0 cs).count '%' < cs.count '%' := by
  have hp := pass_of_numbered hn cs
  induction hp with
  | nil =>
    refine absurd ?_ h
    intro ds es he f hf hp
    have := hn.length_reference hf
    have := hp.length_le
    simp only [(List.append_eq_nil_iff.1 he.symm).2, List.length_nil] at this
    omega
  | @replace f cs hf _ ih =>
    have := count_substitute_le hn hv cs
    have := count_reference hn hf
    -- A reference has percent signs and its value has none, so replacing one is enough.
    rw [substitute_reference hn hf, List.count_append, List.count_append,
      List.count_eq_zero.2 (hv f hf)]
    omega
  | @keep c cs hkeep _ ih =>
    have hcs : ¬Unreferenced fs cs := by
      intro hcs
      refine h fun ds es he f hf hp => ?_
      cases ds with
      | nil =>
        rw [List.nil_append] at he
        exact hkeep f hf (he ▸ hp)
      | cons d ds => exact hcs ds es (List.cons.inj he).2 f hf hp
    rw [substitute_cons hkeep, List.count_cons, List.count_cons]
    have := ih hcs
    omega

end SpatialQuery.View
