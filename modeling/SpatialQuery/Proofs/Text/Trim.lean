import Mathlib.Data.List.TakeWhile
import SpatialQuery.Text.Blank

/-!
Blanks around a text. Trimming takes them away, and nothing else (`trim_split`).
-/

namespace SpatialQuery.Text

theorem isBlank_of_printable {c : Char} (h : 33 ≤ c.toNat ∧ c.toNat ≤ 126) : isBlank c = false := by
  simp [isBlank]
  omega

/-- Blanks around a text make no difference. -/
theorem trim_blanks {before after : List Char} (h : ∀ c ∈ before ++ after, isBlank c = true) (s : String) :
    trim (String.ofList (before ++ s.toList ++ after)) = trim s := by
  rw [List.forall_mem_append] at h
  have hbefore : trimStart (before ++ (s.toList ++ after)) = trimStart (s.toList ++ after) :=
    List.dropWhile_append_of_pos h.1
  have hafter : trimEnd (trimStart (s.toList ++ after)) = trimEnd (trimStart s.toList) := by
    rw [trimStart, trimStart, List.dropWhile_append]
    split
    · rename_i hempty
      rw [List.isEmpty_iff.1 hempty, List.dropWhile_eq_nil_iff.2 h.2]
    · rw [trimEnd, trimEnd, List.reverse_append, List.dropWhile_append_of_pos]
      exact fun c hc => h.2 c (List.mem_reverse.1 hc)
  rw [trim, trim, String.toList_ofList, List.append_assoc, hbefore, hafter]

/-- A text that neither begins nor ends with a blank is not changed. -/
theorem trim_of_ends {cs : List Char} (hfirst : ∀ c ∈ cs.head?, isBlank c = false)
    (hlast : ∀ c ∈ cs.getLast?, isBlank c = false) : trim (String.ofList cs) = String.ofList cs := by
  have hkeep : ∀ ds : List Char, (∀ c ∈ ds.head?, isBlank c = false) → ds.dropWhile isBlank = ds := by
    rintro (_ | ⟨d, ds⟩) hds
    · rfl
    · rw [List.dropWhile_cons_of_neg (by rw [hds d rfl]; exact Bool.false_ne_true)]
  have hreverse : ∀ c ∈ cs.reverse.head?, isBlank c = false := by
    rwa [List.head?_reverse]
  rw [trim, String.toList_ofList, trimEnd, trimStart, hkeep cs hfirst, hkeep _ hreverse, List.reverse_reverse]

theorem trim_eq_self {cs : List Char} (h : ∀ c ∈ cs, isBlank c = false) :
    trim (String.ofList cs) = String.ofList cs :=
  trim_of_ends (fun c hc => h c (List.mem_of_mem_head? hc)) fun c hc => h c (List.mem_of_getLast? hc)

/-- What is trimmed away are blanks. -/
theorem trim_split (s : String) : ∃ before after, s.toList = before ++ (trim s).toList ++ after ∧
    ∀ c ∈ before ++ after, isBlank c = true := by
  have hstart := List.takeWhile_append_dropWhile (p := isBlank) (l := s.toList)
  have hstop := List.takeWhile_append_dropWhile (p := isBlank) (l := (trimStart s.toList).reverse)
  refine ⟨s.toList.takeWhile isBlank, ((trimStart s.toList).reverse.takeWhile isBlank).reverse, ?_, ?_⟩
  · have hend := congrArg List.reverse hstop
    rw [List.reverse_append, List.reverse_reverse] at hend
    rw [trim, String.toList_ofList, List.append_assoc, trimEnd, hend, trimStart, hstart]
  · refine List.forall_mem_append.2 ⟨fun c hc => List.mem_takeWhile_imp hc, fun c hc => ?_⟩
    exact List.mem_takeWhile_imp (List.mem_reverse.1 hc)

theorem trim_trim (s : String) : trim (trim s) = trim s := by
  obtain ⟨before, after, hsplit, hblank⟩ := trim_split s
  have h := trim_blanks hblank (trim s)
  rw [← hsplit, String.ofList_toList] at h
  exact h.symm

end SpatialQuery.Text
