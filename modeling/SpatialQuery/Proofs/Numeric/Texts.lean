import SpatialQuery.Numeric
import SpatialQuery.Proofs.Numeric.Digits
import SpatialQuery.Proofs.Text.Trim

/-!
Texts of decimal numbers: a sign, digits before and behind a point, and blanks around them. Exactly these
texts are read (`read?_iff`).
-/

namespace SpatialQuery.Numeric

/-- What stands in front of the digits; only a minus sign makes a number negative. -/
inductive IsSign : Bool → List Char → Prop
  | none : IsSign false []
  | plus : IsSign false ['+']
  | minus : IsSign true ['-']

/-- How numbers are written. Digits may be missing on one side of the point. -/
inductive Written : Numeral → List Char → Prop
  | nan {cs : List Char} : cs.map Char.toLower = ['n', 'a', 'n'] → Written .nan cs
  | whole {negative : Bool} {sign whole : List Char} : IsSign negative sign → IsDigits whole → whole ≠ [] →
      Written (.decimal negative whole []) (sign ++ whole)
  | point {negative : Bool} {sign whole fraction : List Char} : IsSign negative sign → IsDigits whole →
      IsDigits fraction → whole ++ fraction ≠ [] →
        Written (.decimal negative whole fraction) (sign ++ (whole ++ '.' :: fraction))

/-- The text is the number, with blanks around it. -/
def Reads (s : String) (n : Numeral) : Prop :=
  ∃ before cs after, s.toList = before ++ cs ++ after ∧ (∀ c ∈ before ++ after, Text.isBlank c = true) ∧
    Written n cs

/-! ## Characters -/

theorem not_point_of_isDigit {cs : List Char} (h : IsDigits cs) : ∀ c ∈ cs, (c != '.') = true := by
  intro c hc
  rw [bne_iff_ne]
  rintro rfl
  exact absurd (h _ hc) (by decide)

/-- Numbers are written with printable characters, of which none is a letter. -/
theorem Written.range {negative : Bool} {whole fraction cs : List Char}
    (h : Written (.decimal negative whole fraction) cs) : ∀ c ∈ cs, 33 ≤ c.toNat ∧ c.toNat ≤ 57 := by
  have hdigits : ∀ {ds : List Char}, IsDigits ds → ∀ c ∈ ds, 33 ≤ c.toNat ∧ c.toNat ≤ 57 := by
    intro ds hds c hc
    have hrange : 48 ≤ c.toNat ∧ c.toNat ≤ 57 := Char.isDigit_iff_toNat.1 (hds c hc)
    omega
  have hsign : ∀ {sign : List Char}, IsSign negative sign → ∀ c ∈ sign, 33 ≤ c.toNat ∧ c.toNat ≤ 57 := by
    rintro _ (_ | _ | _) <;> simp
  cases h with
  | whole hs hw => exact List.forall_mem_append.2 ⟨hsign hs, hdigits hw⟩
  | point hs hw hf =>
    refine List.forall_mem_append.2 ⟨hsign hs, List.forall_mem_append.2 ⟨hdigits hw, ?_⟩⟩
    exact List.forall_mem_cons.2 ⟨by decide, hdigits hf⟩

theorem Written.digits {negative : Bool} {whole fraction cs : List Char}
    (h : Written (.decimal negative whole fraction) cs) : IsDigits whole ∧ IsDigits fraction := by
  cases h with
  | whole _ hw => exact ⟨hw, List.forall_mem_nil _⟩
  | point _ hw hf => exact ⟨hw, hf⟩

theorem toLower_eq {c : Char} (h : c.toNat < 65) : c.toLower = c := by
  unfold Char.toLower
  rw [dif_neg]
  rintro ⟨hc, -⟩
  have hc : 65 ≤ c.toNat := hc
  omega

theorem Written.not_nan {negative : Bool} {whole fraction cs : List Char}
    (h : Written (.decimal negative whole fraction) cs) : cs.map Char.toLower ≠ ['n', 'a', 'n'] := by
  intro hnan
  obtain ⟨c, ds, rfl, hc, -⟩ := List.map_eq_cons_iff.1 hnan
  have hrange := (h.range c List.mem_cons_self).2
  rw [toLower_eq (by omega)] at hc
  subst hc
  exact absurd hrange (by decide)

theorem Written.not_blank {n : Numeral} {cs : List Char} (h : Written n cs) :
    ∀ c ∈ cs, Text.isBlank c = false := by
  cases n with
  | decimal negative whole fraction =>
    intro c hc
    have := h.range c hc
    exact Text.isBlank_of_printable (by omega)
  | nan =>
    cases h with
    | nan hnan =>
      intro c hc
      have hlower : c.toLower ∈ ['n', 'a', 'n'] := hnan ▸ List.mem_map_of_mem hc
      by_contra hblank
      -- a blank has no lower case of its own
      have hself : c.toLower = c := by
        unfold Char.toLower
        rw [dif_neg]
        rintro ⟨h₁, h₂⟩
        have h₁ : 65 ≤ c.toNat := h₁
        have h₂ : c.toNat ≤ 90 := h₂
        exact hblank (Text.isBlank_of_printable (by omega))
      have hletters : ∀ d ∈ ['n', 'a', 'n'], Text.isBlank d = false := by simp [Text.isBlank]
      exact hblank (hletters c (hself ▸ hlower))

/-! ## Reading -/

/-- Digits with at most one point among them. -/
theorem readUnsigned?_iff {negative : Bool} {cs : List Char} {n : Numeral} :
    readUnsigned? negative cs = some n ↔ ∃ whole fraction, IsDigits whole ∧ IsDigits fraction ∧
      whole ++ fraction ≠ [] ∧ n = .decimal negative whole fraction ∧
        (cs = whole ∧ fraction = [] ∨ cs = whole ++ '.' :: fraction) := by
  unfold readUnsigned?
  dsimp only
  constructor
  · intro h
    split at h
    · cases h
    · rename_i hdigits
      obtain rfl := Option.some.inj h
      rw [Bool.or_eq_true, not_or, List.isEmpty_iff, Bool.not_eq_true', Bool.not_eq_false,
        List.all_append, Bool.and_eq_true, List.all_eq_true, List.all_eq_true] at hdigits
      obtain ⟨hne, hwhole, hfraction⟩ := hdigits
      refine ⟨_, _, hwhole, hfraction, hne, rfl, ?_⟩
      -- the first point divides the digits
      have hsplit := List.takeWhile_append_dropWhile (p := (· != '.')) (l := cs)
      cases hrest : cs.dropWhile (· != '.') with
      | nil =>
        rw [hrest, List.append_nil] at hsplit
        exact .inl ⟨hsplit.symm, rfl⟩
      | cons c ds =>
        have hpoint : c = '.' := by
          have := List.head?_dropWhile_not (· != '.') cs
          rw [hrest] at this
          simpa using this
        rw [hrest, hpoint] at hsplit
        exact .inr hsplit.symm
  · rintro ⟨whole, fraction, hwhole, hfraction, hne, rfl, hcs⟩
    have hparts : cs.takeWhile (· != '.') = whole ∧ (cs.dropWhile (· != '.')).drop 1 = fraction := by
      have hpoint := not_point_of_isDigit hwhole
      rcases hcs with ⟨rfl, rfl⟩ | rfl
      · exact ⟨List.takeWhile_eq_self_iff.2 hpoint, by rw [List.dropWhile_eq_nil_iff.2 hpoint, List.drop_nil]⟩
      · rw [List.takeWhile_append_of_pos hpoint, List.dropWhile_append_of_pos hpoint]
        exact ⟨List.append_nil _, rfl⟩
    rw [hparts.1, hparts.2, if_neg]
    rw [Bool.or_eq_true, not_or, List.isEmpty_iff, Bool.not_eq_true', Bool.not_eq_false,
      List.all_append, Bool.and_eq_true, List.all_eq_true, List.all_eq_true]
    exact ⟨hne, hwhole, hfraction⟩

/-- The digits behind a sign. -/
theorem written_unsigned_iff {negative : Bool} {whole fraction cs : List Char} :
    Written (.decimal negative whole fraction) cs ↔ ∃ sign ds, IsSign negative sign ∧ cs = sign ++ ds ∧
      readUnsigned? negative ds = some (.decimal negative whole fraction) := by
  constructor
  · intro h
    cases h with
    | whole hs hw hne =>
      refine ⟨_, _, hs, rfl, readUnsigned?_iff.2 ⟨whole, [], hw, List.forall_mem_nil _, ?_, rfl, .inl ⟨rfl, rfl⟩⟩⟩
      rwa [List.append_nil]
    | point hs hw hf hne => exact ⟨_, _, hs, rfl, readUnsigned?_iff.2 ⟨whole, fraction, hw, hf, hne, rfl, .inr rfl⟩⟩
  · rintro ⟨sign, ds, hs, rfl, h⟩
    obtain ⟨w, f, hw, hf, hne, heq, hds⟩ := readUnsigned?_iff.1 h
    obtain ⟨-, rfl, rfl⟩ := Numeral.decimal.inj heq
    rcases hds with ⟨rfl, rfl⟩ | rfl
    · rw [List.append_nil] at hne
      exact .whole hs hw hne
    · exact .point hs hw hf hne

theorem negative_of_readUnsigned? {negative : Bool} {cs : List Char} {n : Numeral}
    (h : readUnsigned? negative cs = some n) : ∃ whole fraction, n = .decimal negative whole fraction := by
  obtain ⟨whole, fraction, -, -, -, rfl, -⟩ := readUnsigned?_iff.1 h
  exact ⟨whole, fraction, rfl⟩

/-- A number without a sign begins with a digit or with its point. -/
theorem head_of_readUnsigned? {negative : Bool} {c : Char} {cs : List Char} {n : Numeral}
    (h : readUnsigned? negative (c :: cs) = some n) : c ≠ '-' ∧ c ≠ '+' := by
  obtain ⟨whole, fraction, hwhole, -, hne, -, hcs⟩ := readUnsigned?_iff.1 h
  have hc : c.isDigit = true ∨ c = '.' := by
    cases whole with
    | nil =>
      rcases hcs with ⟨hcs, -⟩ | hcs
      · cases hcs
      · exact .inr (List.cons.inj hcs).1
    | cons d ds =>
      have hd := hwhole d List.mem_cons_self
      rcases hcs with ⟨hcs, -⟩ | hcs <;> exact .inl ((List.cons.inj hcs).1 ▸ hd)
  constructor <;> rintro rfl <;> exact absurd hc (by decide)

theorem read?_iff {cs : List Char} {n : Numeral} : Numeral.read? cs = some n ↔ Written n cs := by
  unfold Numeral.read?
  by_cases hnan : cs.map Char.toLower = ['n', 'a', 'n']
  · have hsame : Text.sameLetters cs "nan".toList = true := beq_iff_eq.2 hnan
    rw [if_pos hsame]
    constructor
    · rintro ⟨⟩
      exact .nan hnan
    · intro h
      cases n with
      | nan => rfl
      | decimal => exact absurd hnan h.not_nan
  · have hother : ¬Text.sameLetters cs "nan".toList = true := fun h => hnan (beq_iff_eq.1 h)
    rw [if_neg hother]
    constructor
    · intro h
      split at h
      · obtain ⟨whole, fraction, rfl⟩ := negative_of_readUnsigned? h
        exact written_unsigned_iff.2 ⟨['-'], _, .minus, rfl, h⟩
      · obtain ⟨whole, fraction, rfl⟩ := negative_of_readUnsigned? h
        exact written_unsigned_iff.2 ⟨['+'], _, .plus, rfl, h⟩
      · obtain ⟨whole, fraction, rfl⟩ := negative_of_readUnsigned? h
        exact written_unsigned_iff.2 ⟨[], _, .none, rfl, h⟩
    · intro h
      cases n with
      | nan =>
        cases h with
        | nan h => exact absurd h hnan
      | decimal negative whole fraction =>
        obtain ⟨sign, ds, hs, rfl, hread⟩ := written_unsigned_iff.1 h
        cases hs with
        | minus => exact hread
        | plus => exact hread
        | none =>
          rw [List.nil_append]
          split
          · exact absurd rfl (head_of_readUnsigned? hread).1
          · exact absurd rfl (head_of_readUnsigned? hread).2
          · exact hread

/-- What is read of a text is the number that it writes. -/
theorem read?_trim_iff {s : String} {n : Numeral} :
    Numeral.read? (Text.trim s).toList = some n ↔ Reads s n := by
  constructor
  · intro h
    obtain ⟨before, after, hs, hblank⟩ := Text.trim_split s
    exact ⟨before, _, after, hs, hblank, read?_iff.1 h⟩
  · rintro ⟨before, cs, after, hs, hblank, h⟩
    have htrim := Text.trim_blanks hblank (String.ofList cs)
    rw [String.toList_ofList, ← hs, String.ofList_toList, Text.trim_eq_self h.not_blank] at htrim
    rw [htrim, String.toList_ofList]
    exact read?_iff.2 h

theorem Reads.unique {s : String} {m n : Numeral} (hm : Reads s m) (hn : Reads s n) : m = n :=
  Option.some.inj ((read?_trim_iff.2 hm).symm.trans (read?_trim_iff.2 hn))

/-- A text is encoded as the number that it writes, if it writes one. -/
theorem encode_ok_iff {s : String} {w : Bytes} :
    encode s = .ok w ↔ ∃ n, Reads s n ∧ w = (Fields.ofNumeral n).bytes := by
  unfold encode
  constructor
  · intro h
    split at h
    · rename_i n hn
      exact ⟨n, read?_trim_iff.1 hn, (Except.ok.inj h).symm⟩
    · cases h
  · rintro ⟨n, hn, rfl⟩
    rw [read?_trim_iff.2 hn]

end SpatialQuery.Numeric
