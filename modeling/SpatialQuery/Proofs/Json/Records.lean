import SpatialQuery.Proofs.Json.RoundTrip

/-!
Records as JSON objects: what is written of a value is read as the value, and can be written as text
(`Json.Encodes`). A record has its fields in order, those without a value left out (`record?_present`), also when it is
read of a text (`reread_present`).
-/

namespace SpatialQuery.Json

variable {α β : Type}

/-! ## Parts that can be written -/

theorem writableItems_iff {depth : Nat} {items : List Json} :
    WritableItems depth items ↔ ∀ j ∈ items, Writable depth j := by
  induction items with
  | nil => simp [WritableItems]
  | cons j items ih => rw [WritableItems, ih, List.forall_mem_cons]

theorem writableFields_iff {depth : Nat} {fields : List (String × Json)} :
    WritableFields depth fields ↔ ∀ f ∈ fields, Writable depth f.2 := by
  induction fields with
  | nil => simp [WritableFields]
  | cons f fields ih => rw [WritableFields, ih, List.forall_mem_cons]

mutual

/-- What can be written can be read. -/
theorem readable_of_writable : (j : Json) → ∀ {depth : Nat}, Writable depth j → j.readable = true
  | .null, _, _ | .bool _, _, _ | .int _, _, _ | .float _, _, _ | .str _, _, _ => rfl
  | .arr items, _, h => readableItems_of_writable items h.2
  | .obj fields, _, h => readableFields_of_writable fields h.2
  | .unreadable, _, h => h.elim

theorem readableItems_of_writable : (items : List Json) → ∀ {depth : Nat}, WritableItems depth items →
    readableItems items = true
  | [], _, _ => rfl
  | j :: js, _, h => by
    rw [readableItems, readable_of_writable j h.1, readableItems_of_writable js h.2]
    rfl

theorem readableFields_of_writable : (fields : List (String × Json)) → ∀ {depth : Nat}, WritableFields depth fields →
    readableFields fields = true
  | [], _, _ => rfl
  | (_, j) :: fs, _, h => by
    rw [readableFields, readable_of_writable j h.1, readableFields_of_writable fs h.2]
    rfl

end

/-! ## Values -/

/-- The value stands for `a`, with `depth` containers around it. -/
structure Encodes (read : Json → Option α) (depth : Nat) (j : Json) (a : α) : Prop where
  writable : Writable depth j
  read : read j = some a

section Encodes

variable {depth : Nat} {read : Json → Option α}

theorem encodes_str (s : String) : Encodes asString? depth (.str s) s := ⟨trivial, rfl⟩

theorem encodes_int {low high i : Int} (hlow : -0x8000000000000000 ≤ low) (hhigh : high ≤ Text.maxNat64)
    (h : low ≤ i ∧ i ≤ high) : Encodes (asInt? low high) depth (.int i) i :=
  ⟨⟨Int.le_trans hlow h.1, Int.le_trans h.2 hhigh⟩, by simp [asInt?, h]⟩

theorem encodes_nat {high n : Nat} (hhigh : high ≤ Text.maxNat64) (h : n ≤ high) :
    Encodes (asNat? high) depth (.ofNat n) n := by
  have hint : Encodes (asInt? 0 high) depth (.ofNat n) n :=
    encodes_int (by decide) (Int.ofNat_le.2 hhigh) ⟨Int.natCast_nonneg n, Int.ofNat_le.2 h⟩
  exact ⟨hint.writable, by rw [asNat?, hint.read]; rfl⟩

theorem encodes_list {write : α → Json} {as : List α} (hdepth : depth < maxDepth)
    (h : ∀ a ∈ as, Encodes read (depth + 1) (write a) a) :
    Encodes (asList? read) depth (.arr (as.map write)) as := by
  refine ⟨⟨hdepth, writableItems_iff.2 (List.forall_mem_map.2 fun a ha => (h a ha).writable)⟩, ?_⟩
  rw [asList?]
  induction as with
  | nil => rfl
  | cons a as ih =>
    rw [List.map_cons, List.mapM_cons, (h a (List.mem_cons_self ..)).read,
      ih fun b hb => h b (List.mem_cons_of_mem a hb)]
    rfl

theorem rereadItems_eq_map (depth : Nat) (items : List Json) : rereadItems depth items = items.map (reread depth) := by
  induction items with
  | nil => rfl
  | cons j items ih => rw [rereadItems, ih, List.map_cons]

/-- A list is read of a text if all that it has can be read. -/
theorem asList?_reread {f : α → β} {p : α → Prop} [DecidablePred p] {write : α → Json} {read : Json → Option β}
    {as : List α} (hdepth : depth < maxDepth)
    (h : ∀ a ∈ as, read (reread (depth + 1) (write a)) = if p a then some (f a) else none) :
    asList? read (reread depth (.arr (as.map write))) = if ∀ a ∈ as, p a then some (as.map f) else none := by
  rw [reread, unlessTooDeep, if_pos (Nat.succ_le_of_lt hdepth), asList?, rereadItems_eq_map]
  induction as with
  | nil => rfl
  | cons a as ih =>
    rw [List.map_cons, List.map_cons, List.mapM_cons, h a (List.mem_cons_self ..),
      ih fun b hb => h b (List.mem_cons_of_mem a hb)]
    simp only [List.forall_mem_cons]
    by_cases ha : p a
    · by_cases has : ∀ b ∈ as, p b
      · rw [if_pos ha, if_pos has, if_pos ⟨ha, has⟩]
        rfl
      · have hall : ¬(p a ∧ ∀ b ∈ as, p b) := fun h => has h.2
        rw [if_pos ha, if_neg has, if_neg hall]
        rfl
    · have hall : ¬(p a ∧ ∀ b ∈ as, p b) := fun h => ha h.1
      rw [if_neg ha, if_neg hall]
      rfl

end Encodes

/-! ## Records -/

/-- The fields that have a value. -/
def present (fields : List (String × Option Json)) : List (String × Json) :=
  fields.flatMap fun (n, j) => (j.map (n, ·)).toList

theorem present_cons (n : String) (v : Option Json) (fields : List (String × Option Json)) :
    present ((n, v) :: fields) = (v.map (n, ·)).toList ++ present fields := rfl

theorem mem_present {f : String × Json} {fields : List (String × Option Json)} :
    f ∈ present fields ↔ (f.1, some f.2) ∈ fields := by
  obtain ⟨n, j⟩ := f
  simp only [present, List.mem_flatMap, Option.mem_toList, Option.map_eq_some_iff, Prod.mk.injEq]
  constructor
  · rintro ⟨⟨m, v⟩, hf, i, hv, rfl, rfl⟩
    exact hv ▸ hf
  · exact fun h => ⟨_, h, j, rfl, rfl, rfl⟩

theorem not_mem_present {n : String} {fields : List (String × Option Json)} (h : n ∉ fields.map Prod.fst) :
    ∀ f ∈ present fields, (f.1 == n) = false := by
  intro f hf
  rw [beq_eq_false_iff_ne]
  rintro rfl
  exact h (List.mem_map_of_mem (mem_present.1 hf))

theorem length_filter_present {fields : List (String × Option Json)} (h : (fields.map Prod.fst).Nodup) (n : String) :
    ((present fields).filter (·.1 == n)).length ≤ 1 := by
  induction fields with
  | nil => exact Nat.zero_le 1
  | cons f fields ih =>
    obtain ⟨m, v⟩ := f
    obtain ⟨hm, hrest⟩ := List.nodup_cons.1 h
    rw [present_cons, List.filter_append, List.length_append]
    by_cases hn : m = n
    · subst hn
      have hnone : (present fields).filter (·.1 == m) = [] :=
        List.filter_eq_nil_iff.2 fun f hf => by simp [not_mem_present hm f hf]
      rw [hnone]
      cases v <;> simp
    · have hskip : ((v.map (m, ·)).toList).filter (·.1 == n) = [] := by
        cases v <;> simp [hn]
      rw [hskip, List.length_nil, Nat.zero_add]
      exact ih hrest

theorem lookup_present {fields : List (String × Option Json)} (h : (fields.map Prod.fst).Nodup) :
    (fields.map Prod.fst).map (fun n => List.lookup n (present fields)) = fields.map Prod.snd := by
  induction fields with
  | nil => rfl
  | cons f fields ih =>
    obtain ⟨m, v⟩ := f
    obtain ⟨hm, hrest⟩ := List.nodup_cons.1 h
    have hfirst : List.lookup m (present ((m, v) :: fields)) = v := by
      cases v with
      | none =>
        refine List.lookup_eq_none_iff.2 fun f hf => ?_
        rw [bne_iff_ne, ne_comm, ← beq_eq_false_iff_ne]
        exact not_mem_present hm f hf
      | some j => exact List.lookup_cons_self
    have hother : ∀ n ∈ fields.map Prod.fst, List.lookup n (present ((m, v) :: fields)) =
        List.lookup n (present fields) := by
      intro n hn
      have hne : (n == m) = false := beq_eq_false_iff_ne.2 fun h => hm (h ▸ hn)
      cases v with
      | none => rfl
      | some j => rw [present_cons, Option.map_some, Option.toList_some, List.singleton_append, List.lookup_cons, hne]
    rw [List.map_cons, List.map_cons, List.map_cons, hfirst, List.map_congr_left hother, ih hrest]

/-- The record has the fields with these names, each once. -/
theorem record?_present {fields : List (String × Option Json)} {names : List String}
    (hnames : fields.map Prod.fst = names) (h : names.Nodup) :
    (Json.obj (present fields)).record? names = some (fields.map Prod.snd) := by
  subst hnames
  have hall : ((fields.map Prod.fst).all fun n => ((present fields).filter (·.1 == n)).length ≤ 1) = true := by
    rw [List.all_eq_true]
    exact fun n _ => decide_eq_true (length_filter_present h n)
  rw [record?, if_pos hall, lookup_present h]

theorem writable_present {depth : Nat} {fields : List (String × Option Json)} (hdepth : depth < maxDepth)
    (h : ∀ f ∈ fields, ∀ j ∈ f.2, Writable (depth + 1) j) : Writable depth (.obj (present fields)) :=
  ⟨hdepth, writableFields_iff.2 fun _ hf => h _ (mem_present.1 hf) _ rfl⟩

theorem reread_present {depth : Nat} (hdepth : depth < maxDepth) (fields : List (String × Option Json)) :
    reread depth (.obj (present fields)) =
      .obj (present (fields.map (Prod.map id (Option.map (reread (depth + 1)))))) := by
  have hfields : rereadFields (depth + 1) (present fields) =
      present (fields.map (Prod.map id (Option.map (reread (depth + 1))))) := by
    induction fields with
    | nil => rfl
    | cons f fields ih =>
      obtain ⟨n, v⟩ := f
      rw [List.map_cons, present_cons, present_cons, ← ih]
      cases v <;> rfl
  rw [reread, unlessTooDeep, if_pos (Nat.succ_le_of_lt hdepth), hfields]

/-- A field that may be missing is read as it was written. -/
theorem optional_map {read : Json → Option α} {write : α → Json} {depth : Nat} {v : Option α}
    (h : ∀ a ∈ v, Encodes read depth (write a) a) (hnull : ∀ a, write a ≠ .null) :
    optional read (v.map write) = some v := by
  cases v with
  | none => rfl
  | some a =>
    have hread := (h a rfl).read
    have hne := hnull a
    rw [Option.map_some, optional, withDefault, asOption?]
    · rw [hread]
      rfl
    · exact hne

theorem optional_str (s : Option String) : optional asString? (s.map .str) = some s :=
  @optional_map _ _ _ 0 s (fun s _ => encodes_str s) nofun

end SpatialQuery.Json
