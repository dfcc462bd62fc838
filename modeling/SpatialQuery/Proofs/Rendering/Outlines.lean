import SpatialQuery.Proofs.Rendering.Limits
import SpatialQuery.Proofs.Rendering.Values

/-!
Fragments without the contents of their values. Where those are alike, the texts are the same and the values
have the same kinds (`texts_of_outlines`, `kinds_of_outlines`). Statements that are read alike have equally many
values (`Select.length_values_of_texts`).
-/

namespace SpatialQuery

inductive Value.Kind where
  | bool
  | int
  | float
  | text
  deriving DecidableEq, Repr

def Value.kind : Value → Value.Kind
  | bool _ => .bool
  | int _ => .int
  | float _ => .float
  | text _ => .text

namespace Sql

open Token Fragment

/-- A fragment without the content of its value. -/
def Fragment.outline : Fragment → Value.Kind ⊕ Fragment
  | param v => .inl v.kind
  | f => .inr f

theorem outline_cases {f g : Fragment} (h : f.outline = g.outline) :
    f = g ∨ ∃ v w, f = param v ∧ g = param w ∧ v.kind = w.kind := by
  cases f with
  | param v =>
    cases g with
    | param w => exact .inr ⟨v, w, rfl, rfl, Sum.inl.inj h⟩
    | _ => cases h
  | _ =>
    cases g with
    | param w => cases h
    | _ => exact .inl (Sum.inr.inj h)

section Outlines

variable {fs gs : List Fragment} (h : fs.map outline = gs.map outline)

include h

/-- Placeholders are numbered, whatever they stand for. -/
theorem texts_of_outlines (index : Nat) : texts index fs = texts index gs := by
  induction fs generalizing gs index with
  | nil =>
    obtain rfl := List.map_eq_nil_iff.1 h.symm
    rfl
  | cons f fs ih =>
    obtain ⟨g, gs, rfl, hhead, htail⟩ := List.map_eq_cons_iff.1 h.symm
    rcases outline_cases hhead with rfl | ⟨v, w, rfl, rfl, -⟩
    · rw [texts_cons, texts_cons, ih htail.symm]
    · exact congrArg (('$' :: Text.ofNat index) ++ ·) (ih htail.symm (index + 1))

theorem kinds_of_outlines : (values fs).map Value.kind = (values gs).map Value.kind := by
  induction fs generalizing gs with
  | nil =>
    obtain rfl := List.map_eq_nil_iff.1 h.symm
    rfl
  | cons f fs ih =>
    obtain ⟨g, gs, rfl, hhead, htail⟩ := List.map_eq_cons_iff.1 h.symm
    have hrest := ih htail.symm
    rcases outline_cases hhead with rfl | ⟨v, w, rfl, rfl, hkind⟩
    · cases g with
      | param v => exact congrArg (v.kind :: ·) hrest
      | _ => exact hrest
    · change w.kind :: (values fs).map Value.kind = v.kind :: (values gs).map Value.kind
      rw [hkind, hrest]

end Outlines

/-! ## Outlines of predicates -/

theorem outlines_commaList (items : List (List Fragment)) :
    (commaList items).map outline = [.inr (symbol ','), .inr blank].intercalate (items.map (·.map outline)) := by
  induction items with
  | nil => rfl
  | cons a items ih =>
    cases items with
    | nil => simp [commaList, List.intercalate]
    | cons b items =>
      rw [commaList_cons_cons, List.map_append, List.map_cons, List.map_cons, ih]
      simp [List.intercalate, outline]

theorem outlines_call {items items' : List (List Fragment)}
    (h : items.map (·.map outline) = items'.map (·.map outline)) (function : String) :
    (call function items).map outline = (call function items').map outline := by
  simp only [call, List.map_append, List.map_cons, outlines_commaList, h]

theorem outlines_joined {a a' b b' : List Fragment} (ha : a.map outline = a'.map outline)
    (hb : b.map outline = b'.map outline) (ws : List String) :
    (Predicate.joined a ws b).map outline = (Predicate.joined a' ws b').map outline := by
  simp only [Predicate.joined, List.map_append, List.map_cons, ha, hb]

theorem outlines_textMatch {b b' : List Fragment} (h : b.map outline = b'.map outline) (m : TextMatch)
    (a : List Fragment) :
    (Predicate.textMatchFragments m a b).map outline = (Predicate.textMatchFragments m a b').map outline := by
  cases m <;> simp only [Predicate.textMatchFragments, Predicate.joined, List.map_append, List.map_cons, h]

/-! ## Placeholders in texts -/

/-- As many placeholders as values. -/
theorem countP_placeholder (index : Nat) (fs : List Fragment) :
    (tokens index fs).countP (fun t => (placeholder? t).isSome) = (values fs).length := by
  induction fs generalizing index with
  | nil => rfl
  | cons f fs ih =>
    rw [tokens, List.countP_append, ih]
    cases f with
    | param v => exact Nat.add_comm 1 _
    | _ => exact Nat.zero_add _

theorem Select.length_values_of_texts {s s' : Select} (h : texts 1 s.fragments = texts 1 s'.fragments) :
    (values s.fragments).length = (values s'.fragments).length := by
  have htokens : tokens 1 s.fragments = tokens 1 s'.fragments := by
    rw [← tokens_ofString s, h, tokens_ofString]
  rw [← countP_placeholder 1, htokens, countP_placeholder]

end Sql

end SpatialQuery
