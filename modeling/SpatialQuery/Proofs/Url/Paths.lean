import SpatialQuery.Identifier
import SpatialQuery.Proofs.Lexical.Reading
import SpatialQuery.Proofs.Text.Trim
import SpatialQuery.Url

/-!
Paths and the names that are appended to them. A path is told by its text if its segments have no slashes
(`pathText_injective`). What is appended stands there with reserved characters encoded, so that a name gives back
its characters (`segmentText_eq_iff`) except those that a URL ignores (`carried`).
-/

namespace SpatialQuery.Url

/-! ## Texts of paths -/

theorem pathText_cons (s : List Char) (ss : List (List Char)) : pathText (s :: ss) = '/' :: (s ++ pathText ss) :=
  List.flatMap_cons

theorem pathText_append (ss ts : List (List Char)) : pathText (ss ++ ts) = pathText ss ++ pathText ts :=
  List.flatMap_append

theorem head_pathText (ss : List (List Char)) : ∀ c ∈ (pathText ss).head?, c = '/' := by
  cases ss with
  | nil => nofun
  | cons s ss =>
    rw [pathText_cons]
    rintro _ ⟨⟩
    rfl

theorem pathText_injective {ss ts : List (List Char)} (hs : ∀ s ∈ ss, '/' ∉ s) (ht : ∀ t ∈ ts, '/' ∉ t)
    (h : pathText ss = pathText ts) : ss = ts := by
  have hstop : ∀ rs : List (List Char), ∀ c ∈ (pathText rs).head?, (c != '/') = false := by
    intro rs c hc
    rw [head_pathText rs c hc]
    rfl
  have hgo : ∀ {s : List Char}, '/' ∉ s → ∀ c ∈ s, (c != '/') = true := fun hs c hc =>
    bne_iff_ne.2 fun heq => hs (heq ▸ hc)
  induction ss generalizing ts with
  | nil =>
    cases ts with
    | nil => rfl
    | cons t ts => cases h
  | cons s ss ih =>
    cases ts with
    | nil => cases h
    | cons t ts =>
      rw [List.forall_mem_cons] at hs ht
      rw [pathText_cons, pathText_cons, List.cons_inj_right] at h
      have hfirst := congrArg (List.takeWhile (· != '/')) h
      have hrest := congrArg (List.dropWhile (· != '/')) h
      rw [Lexical.takeWhile_exact (hgo hs.1) (hstop ss), Lexical.takeWhile_exact (hgo ht.1) (hstop ts)] at hfirst
      rw [Lexical.dropWhile_exact (hgo hs.1) (hstop ss), Lexical.dropWhile_exact (hgo ht.1) (hstop ts)] at hrest
      rw [hfirst, ih hs.2 ht.2 hrest]

/-! ## Segments -/

/-- The characters of a name that get into a URL, which ignores tabs and line breaks. -/
def carried (s : String) : List Char :=
  s.toList.filter fun c => !(['\t', '\n', '\r'].contains c)

theorem percent_mem_reserved (special : Bool) : '%' ∈ segmentReserved special := by
  cases special <;> decide

theorem segmentText_eq_iff {special : Bool} {s t : String} :
    segmentText special s = segmentText special t ↔ carried s = carried t :=
  ⟨Percent.encode_injective (percent_mem_reserved special), congrArg _⟩

theorem slash_notMem_segmentText (special : Bool) (s : String) : '/' ∉ segmentText special s := by
  intro h
  rcases Percent.mem_encode h with ⟨-, hreserved⟩ | h | h
  · cases special <;> exact hreserved (by decide)
  · cases h
  · exact absurd h (by decide)

theorem eq_false_of_any {p : Char → Bool} {cs : List Char} (h : cs.any p = false) : ∀ c ∈ cs, p c = false :=
  fun c hc => Bool.eq_false_iff.2 (List.any_eq_false.1 h c hc)

theorem unblank_segmentText {special : Bool} {s : String} {c : Char} (hc : c ∈ segmentText special s) :
    Text.isBlank c = false := by
  have hdigits : ∀ d ∈ Bytes.hexDigits, Text.isBlank d = false := eq_false_of_any (by decide)
  rcases Percent.mem_encode hc with ⟨hsafe, hreserved⟩ | rfl | h
  · obtain ⟨hlow, hhigh⟩ := Percent.printable_of_safe hsafe
    have hspace : c.toNat ≠ 0x20 := by
      intro h
      obtain rfl : c = ' ' := Char.toNat_inj.1 h
      cases special <;> exact hreserved (by decide)
    exact Text.isBlank_of_printable (by omega)
  · decide
  · exact hdigits c h

theorem printable_of_isNamePart {c : Char} (h : isNamePart c = true) : 33 ≤ c.toNat ∧ c.toNat ≤ 126 := by
  simp only [isNamePart, isNameStart, Bool.or_eq_true, beq_iff_eq, Lexical.isAlpha_iff, Lexical.isDigit_iff] at h
  rcases h with (h | rfl) | h
  · omega
  · decide
  · omega

section Names

variable {s : String} (h : ∀ c ∈ s.toList, isNamePart c = true)
include h

theorem carried_name : carried s = s.toList := by
  refine List.filter_eq_self.2 fun c hc => ?_
  have hignored : ∀ d ∈ ['\t', '\n', '\r'], isNamePart d = false := eq_false_of_any (by decide)
  rw [Bool.not_eq_true', Bool.eq_false_iff, ne_eq, List.contains_iff_mem]
  intro hmem
  have hpart := h c hc
  rw [hignored c hmem] at hpart
  cases hpart

/-- Names stand in a path as they are. -/
theorem segmentText_name (special : Bool) : segmentText special s = s.toList := by
  have hreserved : ∀ d ∈ segmentReserved special, isNamePart d = false :=
    eq_false_of_any (by cases special <;> decide)
  have hsafe : ∀ c ∈ carried s, Percent.isUnsafe c = false ∧ c ∉ segmentReserved special := by
    rw [carried_name h]
    intro c hc
    have hprintable := printable_of_isNamePart (h c hc)
    refine ⟨?_, fun hmem => ?_⟩
    · simp [Percent.isUnsafe]
      omega
    · have hpart := h c hc
      rw [hreserved c hmem] at hpart
      cases hpart
  exact (Percent.encode_safe hsafe).trans (carried_name h)

end Names

/-! ## Longer paths -/

theorem append_path {u : Url} {names : List String} (h : ∀ s ∈ names, s ≠ "." ∧ s ≠ "..") :
    (u.append names).path = openPath u.path ++ names.map (segmentText (isSpecial u.scheme)) := by
  have hnames : (names.filter fun s => s != "." && s != "..") = names := by
    refine List.filter_eq_self.2 fun s hs => ?_
    rw [bne_iff_ne.2 (h s hs).1, bne_iff_ne.2 (h s hs).2]
    rfl
  rw [append, hnames]

theorem openPath_concat (path : List (List Char)) {s : List Char} (h : s ≠ []) :
    openPath (path ++ [s]) = path ++ [s] := by
  have hlast : ((path ++ [s]).getLast? == some []) = false := by
    rw [List.getLast?_concat]
    exact beq_eq_false_iff_ne.2 fun heq => h (Option.some.inj heq)
  have hroot : (path ++ [s] == [[]]) = false := by
    refine beq_eq_false_iff_ne.2 fun heq => h ?_
    exact List.mem_singleton.1 (heq ▸ List.mem_append_right path (List.mem_singleton_self s))
  simp only [openPath, hlast, hroot, Bool.false_eq_true, if_false]

end SpatialQuery.Url
