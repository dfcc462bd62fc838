import SpatialQuery.Database.Execution
import SpatialQuery.Proofs.Service.Outcomes

/-!
Rows up to a maximum. A stream is read item by item until it ends, fails, or has one item too many. What is returned
depends on the first items alone, one more than the maximum, and no further item is read (`collect_exact`).
-/

namespace SpatialQuery.Database

/-! ## Steps -/

section Steps

variable {ε σ α β : Type} {next : ExceptT ε (StateM σ) (Option β)} {convert : β → ExceptT ε (StateM σ) α}
  {n : Nat} {s s' s'' : σ} {e : ε} {a : α} {b : β}

theorem collect_ended (h : next.run.run s = (.ok none, s')) :
    (collect next convert n).run.run s = (.ok ([], false), s') := by
  cases n <;> exact run_bind_ok h _

theorem collect_failed (h : next.run.run s = (.error e, s')) :
    (collect next convert n).run.run s = (.error e, s') := by
  cases n <;> exact run_bind_error h _

theorem collect_full (h : next.run.run s = (.ok (some b), s')) :
    (collect next convert 0).run.run s = (.ok ([], true), s') :=
  run_bind_ok h _

theorem collect_unconverted (convert : β → ExceptT ε (StateM σ) α) (h : next.run.run s = (.ok (some b), s'))
    (hb : (convert b).run.run s' = (.error e, s'')) :
    (collect next convert (n + 1)).run.run s = (.error e, s'') :=
  (run_bind_ok h _).trans (run_bind_error hb _)

/-- An item in front of the ones that are collected. -/
def prepend (a : α) (r : List α × Bool) : List α × Bool :=
  (a :: r.1, r.2)

theorem collect_converted (convert : β → ExceptT ε (StateM σ) α) (h : next.run.run s = (.ok (some b), s'))
    (hb : (convert b).run.run s' = (.ok a, s'')) :
    (collect next convert (n + 1)).run.run s =
      (((collect next convert n).run.run s'').1.map (prepend a), ((collect next convert n).run.run s'').2) := by
  refine (run_bind_ok h _).trans ((run_bind_ok hb _).trans ?_)
  rcases hrest : (collect next convert n).run.run s'' with ⟨_ | ⟨as, more⟩, s⟩
  · exact run_bind_error hrest _
  · exact run_bind_ok hrest _

end Steps

/-! ## Items of a stream -/

section Items

variable {ε σ τ α β : Type}

/-- The first items of a stream, which ends, or does not. -/
def itemsOf (next : ExceptT ε (StateM σ) (Option β)) : Nat → σ → List (Except ε β)
  | 0, _ => []
  | k + 1, s =>
    match next.run.run s with
    | (.ok none, _) => []
    | (.ok (some b), s') => .ok b :: itemsOf next k s'
    | (.error e, s') => .error e :: itemsOf next k s'

/-- What the items of a stream are converted to, one after the other. -/
def converted (convert : β → ExceptT ε (StateM τ) α) : τ → List (Except ε β) → List (Except ε α)
  | _, [] => []
  | t, .error e :: items => .error e :: converted convert t items
  | t, .ok b :: items => ((convert b).run.run t).1 :: converted convert ((convert b).run.run t).2 items

/-- An item is an error, or it is within the maximum and its conversion fails. -/
def FailsAt (convert : β → ExceptT ε (StateM τ) α) (t : τ) (n : Nat) (items : List (Except ε β)) (k : Nat) (e : ε) :
    Prop :=
  items[k]? = some (.error e) ∨ k < n ∧ (converted convert t items)[k]? = some (.error e)

/-- What is returned for the items of a stream. -/
def Capped (convert : β → ExceptT ε (StateM τ) α) (t : τ) (n : Nat) (items : List (Except ε β)) :
    Except ε (List α × Bool) → Prop
  | .ok (as, more) =>
    converted convert t (items.take n) = as.map .ok ∧ (∀ e, items[n]? ≠ some (.error e)) ∧
      (more = true ↔ n < items.length)
  | .error e => ∃ k ≤ n, FailsAt convert t n items k e ∧ ∀ j < k, ∀ e', ¬FailsAt convert t n items j e'

variable {next : ExceptT ε (StateM σ) (Option β)} {convert : β → ExceptT ε (StateM τ) α} {t t' : τ} {n k : Nat}
  {items : List (Except ε β)} {e e' : ε} {a : α} {b : β} {as : List α} {more : Bool}

theorem length_converted : (converted convert t items).length = items.length := by
  induction items generalizing t with
  | nil => rfl
  | cons item items ih => cases item <;> simp [converted, ih]

theorem converted_take : converted convert t (items.take n) = (converted convert t items).take n := by
  induction items generalizing t n with
  | nil => simp [converted]
  | cons item items ih => cases n <;> cases item <;> simp [converted, ih]

theorem failsAt_succ (hb : (convert b).run.run t = (.ok a, t')) :
    FailsAt convert t (n + 1) (.ok b :: items) (k + 1) e ↔ FailsAt convert t' n items k e := by
  simp [FailsAt, converted, hb]

theorem capped_nil : Capped convert t n [] (.ok ([], false)) := by
  simp [Capped, converted]

theorem capped_error : Capped convert t n (.error e :: items) (.error e) :=
  ⟨0, Nat.zero_le n, .inl rfl, fun _ h => absurd h (Nat.not_lt_zero _)⟩

theorem capped_full : Capped convert t 0 (.ok b :: items) (.ok ([], true)) := by
  simp [Capped, converted]

theorem capped_unconverted (hb : (convert b).run.run t = (.error e, t')) :
    Capped convert t (n + 1) (.ok b :: items) (.error e) :=
  ⟨0, Nat.zero_le _, .inr ⟨Nat.succ_pos n, by simp [converted, hb]⟩, fun _ h => absurd h (Nat.not_lt_zero _)⟩

/-- An item that is converted moves the maximum and the place of the first error by one. -/
theorem capped_converted (hb : (convert b).run.run t = (.ok a, t')) {r : Except ε (List α × Bool)}
    (h : Capped convert t' n items r) : Capped convert t (n + 1) (.ok b :: items) (r.map (prepend a)) := by
  cases r with
  | ok r =>
    obtain ⟨has, hn, hmore⟩ := h
    refine ⟨?_, hn, ?_⟩
    · simp [converted, hb, has]
    · simpa [prepend] using hmore
  | error e =>
    obtain ⟨k, hk, hfails, hbefore⟩ := h
    refine ⟨k + 1, Nat.succ_le_succ hk, (failsAt_succ hb).2 hfails, fun j hj e' hj' => ?_⟩
    cases j with
    | zero => simp [FailsAt, converted, hb] at hj'
    | succ j => exact hbefore j (Nat.lt_of_succ_lt_succ hj) e' ((failsAt_succ hb).1 hj')

/-! ## What is returned -/

theorem converted_getElem?_error (h : items[k]? = some (.error e)) :
    (converted convert t items)[k]? = some (.error e) := by
  induction items generalizing t k with
  | nil => cases h
  | cons item items ih =>
    cases k with
    | zero =>
      cases h
      rfl
    | succ k => cases item <;> exact ih h

theorem not_failsAt_of_ok (h : Capped convert t n items (.ok (as, more))) (hk : k ≤ n) :
    ¬FailsAt convert t n items k e := by
  obtain ⟨has, hn, -⟩ := h
  have hwithin : k < n → (converted convert t items)[k]? ≠ some (.error e) := by
    intro hk herror
    rw [← List.getElem?_take_of_lt hk, ← converted_take, has, List.getElem?_map] at herror
    cases h : as[k]? <;> simp [h] at herror
  rintro (hitem | ⟨hk, hconverted⟩)
  · rcases Nat.lt_or_eq_of_le hk with hk | rfl
    · exact hwithin hk (converted_getElem?_error hitem)
    · exact hn e hitem
  · exact hwithin hk hconverted

theorem length_of_ok (h : Capped convert t n items (.ok (as, more))) : as.length = min items.length n := by
  have hlength := congrArg List.length h.1
  rw [length_converted, List.length_take, List.length_map, Nat.min_comm] at hlength
  exact hlength.symm

theorem failsAt_unique (h : FailsAt convert t n items k e) (h' : FailsAt convert t n items k e') : e = e' := by
  have hconverted : ∀ {e}, FailsAt convert t n items k e → (converted convert t items)[k]? = some (.error e) := fun h =>
    h.elim converted_getElem?_error And.right
  simpa [hconverted h] using hconverted h'

theorem capped_isOk_iff {r : Except ε (List α × Bool)} (h : Capped convert t n items r) :
    (∃ as more, r = .ok (as, more)) ↔ ∀ k ≤ n, ∀ e, ¬FailsAt convert t n items k e := by
  constructor
  · rintro ⟨as, more, rfl⟩ k hk e
    exact not_failsAt_of_ok h hk
  · intro hnone
    cases r with
    | ok r => exact ⟨r.1, r.2, rfl⟩
    | error e =>
      obtain ⟨k, hk, hfails, -⟩ := h
      exact absurd hfails (hnone k hk e)

/-- An error is the first one in the order of the stream. -/
theorem capped_error_iff {r : Except ε (List α × Bool)} (h : Capped convert t n items r) :
    r = .error e ↔ ∃ k ≤ n, FailsAt convert t n items k e ∧ ∀ j < k, ∀ e', ¬FailsAt convert t n items j e' := by
  constructor
  · rintro rfl
    exact h
  · rintro ⟨k, hk, hfails, hbefore⟩
    cases r with
    | ok r => exact absurd hfails (not_failsAt_of_ok h hk)
    | error e' =>
      obtain ⟨k', -, hfails', hbefore'⟩ := h
      obtain hlt | rfl | hlt := Nat.lt_trichotomy k k'
      · exact absurd hfails (hbefore' k hlt e)
      · rw [failsAt_unique hfails hfails']
      · exact absurd hfails' (hbefore k' hlt e')

end Items

/-! ## Reads and conversions -/

/-- A stream and a conversion that are in use: their states, and how often each was called. -/
structure Use (σ τ : Type) where
  stream : σ
  converter : τ
  reads : Nat := 0
  conversions : Nat := 0

namespace Use

variable {ε σ τ α β : Type}

def next (next : ExceptT ε (StateM σ) (Option β)) : ExceptT ε (StateM (Use σ τ)) (Option β) := fun u =>
  ((next.run.run u.stream).1, { u with stream := (next.run.run u.stream).2, reads := u.reads + 1 })

def convert (convert : β → ExceptT ε (StateM τ) α) (b : β) : ExceptT ε (StateM (Use σ τ)) α := fun u =>
  (((convert b).run.run u.converter).1,
    { u with converter := ((convert b).run.run u.converter).2, conversions := u.conversions + 1 })

end Use

section Uses

variable {ε σ τ α β : Type} {next : ExceptT ε (StateM σ) (Option β)} {convert : β → ExceptT ε (StateM τ) α}

theorem run_next {u : Use σ τ} {item : Except ε (Option β)} {s : σ} (h : next.run.run u.stream = (item, s)) :
    (Use.next next).run.run u = (item, { u with stream := s, reads := u.reads + 1 }) := by
  change (_, _) = _
  rw [h]

theorem run_convert (convert : β → ExceptT ε (StateM τ) α) {u : Use σ τ} {b : β} {value : Except ε α} {t : τ}
    (h : (convert b).run.run u.converter = (value, t)) :
    (Use.convert convert b).run.run u = (value, { u with converter := t, conversions := u.conversions + 1 }) := by
  change (_, _) = _
  rw [h]

/-- A run of `collect`, from a use of a stream and a conversion to another. -/
def collectUse (next : ExceptT ε (StateM σ) (Option β)) (convert : β → ExceptT ε (StateM τ) α) (n : Nat)
    (u : Use σ τ) : Except ε (List α × Bool) × Use σ τ :=
  (collect (Use.next next) (Use.convert convert) n).run.run u

/-- A run returns what the first items of the stream determine, and makes no more calls than they need. -/
def Accounted (next : ExceptT ε (StateM σ) (Option β)) (convert : β → ExceptT ε (StateM τ) α) (n : Nat) (u : Use σ τ)
    (r : Except ε (List α × Bool) × Use σ τ) : Prop :=
  Capped convert u.converter n (itemsOf next (n + 1) u.stream) r.1 ∧
    r.2.reads ≤ u.reads + (n + 1) ∧ r.2.conversions ≤ u.conversions + n

theorem accounted_failed {n : Nat} {u : Use σ τ} {e : ε} {s : σ} (h : next.run.run u.stream = (.error e, s)) :
    Accounted next convert n u (collectUse next convert n u) := by
  rw [Accounted, collectUse, collect_failed (run_next h), itemsOf, h]
  exact ⟨capped_error, by simp, by simp⟩

theorem accounted_ended {n : Nat} {u : Use σ τ} {s : σ} (h : next.run.run u.stream = (.ok none, s)) :
    Accounted next convert n u (collectUse next convert n u) := by
  rw [Accounted, collectUse, collect_ended (run_next h), itemsOf, h]
  exact ⟨capped_nil, by simp, by simp⟩

theorem collectUse_accounted (next : ExceptT ε (StateM σ) (Option β)) (convert : β → ExceptT ε (StateM τ) α) (n : Nat)
    (u : Use σ τ) : Accounted next convert n u (collectUse next convert n u) := by
  induction n generalizing u with
  | zero =>
    rcases hnext : next.run.run u.stream with ⟨e | _ | b, s⟩
    · exact accounted_failed hnext
    · exact accounted_ended hnext
    · rw [Accounted, collectUse, collect_full (run_next hnext), itemsOf, hnext]
      exact ⟨capped_full, Nat.le_refl _, Nat.le_refl _⟩
  | succ n ih =>
    rcases hnext : next.run.run u.stream with ⟨e | _ | b, s⟩
    · exact accounted_failed hnext
    · exact accounted_ended hnext
    · -- there is room for the item: it is converted, and the rest is read with one place less
      rw [Accounted, collectUse, itemsOf, hnext]
      rcases hb : (convert b).run.run u.converter with ⟨e | a, t⟩
      · rw [collect_unconverted _ (run_next hnext) (run_convert _ hb)]
        exact ⟨capped_unconverted hb, by simp, by simp⟩
      · obtain ⟨hcapped, hreads, hconversions⟩ := ih ⟨s, t, u.reads + 1, u.conversions + 1⟩
        rw [collect_converted _ (run_next hnext) (run_convert _ hb)]
        exact ⟨capped_converted hb hcapped, Nat.le_trans hreads (by dsimp only; omega),
          Nat.le_trans hconversions (by dsimp only; omega)⟩

/-- The maximum is exact. The stream, which may be infinite, and the conversion have states of their own, and
`converted` lists the outcomes of the conversions in the order of the stream. -/
theorem collect_exact (next : ExceptT ε (StateM σ) (Option β)) (convert : β → ExceptT ε (StateM τ) α) (n : Nat) (s : σ)
    (t : τ) :
    let items := itemsOf next (n + 1) s
    let run := collectUse next convert n ⟨s, t, 0, 0⟩
    ((∃ as more, run.1 = .ok (as, more)) ↔ ∀ k ≤ n, ∀ e, ¬FailsAt convert t n items k e) ∧
      (∀ as more, run.1 = .ok (as, more) → converted convert t (items.take n) = as.map .ok ∧
        as.length = min items.length n ∧ (more = true ↔ n < items.length)) ∧
      (∀ e, run.1 = .error e ↔
        ∃ k ≤ n, FailsAt convert t n items k e ∧ ∀ j < k, ∀ e', ¬FailsAt convert t n items j e') ∧
      run.2.reads ≤ n + 1 ∧ run.2.conversions ≤ n := by
  intro items run
  obtain ⟨hcapped, hreads, hconversions⟩ := collectUse_accounted next convert n ⟨s, t, 0, 0⟩
  refine ⟨capped_isOk_iff hcapped, fun as more hrun => ?_, fun e => capped_error_iff hcapped, by simpa using hreads,
    by simpa using hconversions⟩
  replace hcapped : Capped convert t n items (.ok (as, more)) := hrun ▸ hcapped
  exact ⟨hcapped.1, length_of_ok hcapped, hcapped.2.2⟩

end Uses

/-! ## Streams that are lists -/

section Lists

variable {ε α β : Type} {convert : β → Except ε α} {n : Nat} {items : List (Except ε β)}

theorem itemsOf_nextItem : itemsOf nextItem n items = items.take n := by
  induction n generalizing items with
  | zero => rfl
  | succ n ih =>
    rcases items with _ | ⟨_ | b, items⟩
    · rfl
    · exact congrArg _ ih
    · exact congrArg _ ih

theorem converted_lift : converted (fun b => liftM (convert b)) () items = items.map (· >>= convert) := by
  induction items with
  | nil => rfl
  | cons item items ih =>
    cases item with
    | error e => exact congrArg _ ih
    | ok b => exact congrArg _ ih

theorem run_nextItem_nil :
    (nextItem : ExceptT ε (StateM (List (Except ε β))) (Option β)).run.run [] = (.ok none, []) := rfl

theorem run_nextItem_cons {item : Except ε β} : nextItem.run.run (item :: items) = (item.map some, items) := rfl

/-- Counting changes nothing. -/
theorem collectCapped_eq (u : Use (List (Except ε β)) Unit) :
    collectCapped convert n u.stream = (collectUse nextItem (fun b => liftM (convert b)) n u).1 := by
  obtain ⟨items, t, reads, conversions⟩ := u
  unfold collectCapped collectUse
  induction n generalizing items t reads conversions with
  | zero =>
    rcases items with _ | ⟨e | b, items⟩
    · rw [collect_ended run_nextItem_nil, collect_ended (run_next run_nextItem_nil)]
    · rw [collect_failed run_nextItem_cons, collect_failed (run_next run_nextItem_cons)]
    · rw [collect_full run_nextItem_cons, collect_full (run_next run_nextItem_cons)]
  | succ n ih =>
    rcases items with _ | ⟨e | b, items⟩
    · rw [collect_ended run_nextItem_nil, collect_ended (run_next run_nextItem_nil)]
    · rw [collect_failed run_nextItem_cons, collect_failed (run_next run_nextItem_cons)]
    · cases hb : convert b with
      | error e =>
        rw [collect_unconverted (fun b => liftM (convert b)) run_nextItem_cons (run_lift hb),
          collect_unconverted _ (run_next run_nextItem_cons)
            (run_convert (fun b => liftM (convert b)) (run_lift hb))]
      | ok a =>
        rw [collect_converted (fun b => liftM (convert b)) run_nextItem_cons (run_lift hb),
          collect_converted _ (run_next run_nextItem_cons)
            (run_convert (fun b => liftM (convert b)) (run_lift hb)), ih]

theorem collectCapped_capped (convert : β → Except ε α) (n : Nat) (items : List (Except ε β)) :
    Capped (fun b => liftM (convert b)) () n (items.take (n + 1)) (collectCapped convert n items) := by
  have h := (collectUse_accounted nextItem (fun b => liftM (convert b)) n ⟨items, (), 0, 0⟩).1
  rwa [itemsOf_nextItem, ← collectCapped_eq] at h

end Lists

end SpatialQuery.Database
