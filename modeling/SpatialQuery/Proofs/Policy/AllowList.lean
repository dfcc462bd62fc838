import SpatialQuery.Proofs.Except
import SpatialQuery.Proofs.Text.Lower
import SpatialQuery.Proofs.Text.Trim
import SpatialQuery.Settings

/-!
The allow-list of an installation. It is there if its setting has an item, and it allows what one of the items stands
for (`read_allowedRelations`). Names are compared by their lower case. The lower case of an item is taken before it is
cut at its dot, so a capital sigma beside the dot may get another form than it has in the name.
-/

namespace SpatialQuery

open Text

/-! ## Items -/

/-- A schema by its name, or a relation by the names of its schema and itself, in any letter case. -/
def AllowEntry.Admits (item : String) (r : Relation) : Prop :=
  ('.' ∉ item.toList ∧ lower item = lower r.schema) ∨
    ∃ schema table, item.toList = schema ++ '.' :: table ∧ '.' ∉ schema ∧
      lower (String.ofList schema) = lower r.schema ∧ lower (String.ofList table) = lower r.table

/-- The first dot of an item cuts a word for which the form of a capital sigma depends on the other part. -/
def AllowEntry.CutsSigma (item : String) : Prop :=
  ∃ schema table, item.toList = schema ++ '.' :: table ∧ '.' ∉ schema ∧ SigmaAtDot schema table

namespace AllowEntry

section Items

variable {item : String} {r : Relation}

theorem ofString?_schema (htrim : trim item = item) (hne : item ≠ "") (hdot : '.' ∉ item.toList) :
    ofString? item = some (.schema (lower item)) := by
  have hnil : lowerChars item.toList ≠ [] := lowerChars_ne_nil (by simpa using hne)
  have hdrop : (lowerChars item.toList).dropWhile (· != '.') = [] := by
    refine List.dropWhile_eq_nil_iff.2 fun c hc => ?_
    exact bne_iff_ne.2 fun hdot' => dot_notMem_lowerChars hdot (hdot' ▸ hc)
  rw [ofString?, htrim]
  simp only [lower, String.toList_ofList, hdrop, List.isEmpty_iff, if_neg hnil]

theorem ofString?_relation (htrim : trim item = item) {schema table : List Char}
    (hitem : item.toList = schema ++ '.' :: table) (hdot : '.' ∉ schema) :
    ofString? item = some (.relation ⟨String.ofList (lowerBetween [] schema ('.' :: table)),
      String.ofList (lowerAfter ('.' :: schema.reverse) table)⟩) := by
  have hbefore : ∀ c ∈ lowerBetween [] schema ('.' :: table), (c != '.') = true := fun c hc =>
    bne_iff_ne.2 fun hdot' => dot_notMem_lowerBetween hdot (hdot' ▸ hc)
  rw [ofString?, htrim]
  simp only [lower, hitem, String.toList_ofList, lowerChars_dot, List.isEmpty_iff]
  rw [if_neg (by simp), List.dropWhile_append_of_pos hbefore, List.takeWhile_append_of_pos hbefore]
  simp

theorem allows_singleton : (AllowList.ofEntries [item]).allows r =
    (ofString? item).any (·.covers ⟨lower r.schema, lower r.table⟩) := by
  unfold AllowList.allows AllowList.ofEntries
  cases h : ofString? item <;> simp [h]

theorem covers_schema {name : String} :
    (schema name).covers ⟨lower r.schema, lower r.table⟩ = true ↔ name = lower r.schema :=
  beq_iff_eq

theorem covers_relation {schema table : List Char} :
    (relation ⟨String.ofList schema, String.ofList table⟩).covers ⟨lower r.schema, lower r.table⟩ = true ↔
      schema = lowerChars r.schema.toList ∧ table = lowerChars r.table.toList := by
  simp [covers, lower, String.ofList_inj]

/-- The first dot of a text is in one place. -/
theorem cut_unique {a a' b b' : List Char} (h : a ++ '.' :: b = a' ++ '.' :: b') (ha : '.' ∉ a) (ha' : '.' ∉ a') :
    a = a' ∧ b = b' := by
  induction a generalizing a' with
  | nil =>
    cases a' with
    | nil => exact ⟨rfl, (List.cons.inj h).2⟩
    | cons c a' => exact absurd ((List.cons.inj h).1 ▸ List.mem_cons_self) ha'
  | cons c a ih =>
    cases a' with
    | nil => exact absurd ((List.cons.inj h).1 ▸ List.mem_cons_self) ha
    | cons c' a' =>
      obtain ⟨rfl, hrest⟩ := List.cons.inj h
      obtain ⟨rfl, rfl⟩ := ih hrest (fun hm => ha (List.mem_cons_of_mem _ hm)) fun hm => ha' (List.mem_cons_of_mem _ hm)
      exact ⟨rfl, rfl⟩

theorem admits_relation {schema table : List Char} (hitem : item.toList = schema ++ '.' :: table)
    (hdot : '.' ∉ schema) :
    Admits item r ↔ lowerChars schema = lowerChars r.schema.toList ∧ lowerChars table = lowerChars r.table.toList := by
  have hlower : ∀ {cs : List Char} {s : String},
      lower (String.ofList cs) = lower s ↔ lowerChars cs = lowerChars s.toList := by
    simp [lower, String.ofList_inj]
  constructor
  · rintro (⟨hnone, -⟩ | ⟨schema', table', hitem', hdot', hschema, htable⟩)
    · exact absurd (by simp [hitem]) hnone
    · obtain ⟨rfl, rfl⟩ := cut_unique (hitem.symm.trans hitem') hdot hdot'
      exact ⟨hlower.1 hschema, hlower.1 htable⟩
  · rintro ⟨hschema, htable⟩
    exact .inr ⟨schema, table, hitem, hdot, hlower.2 hschema, hlower.2 htable⟩

/-- An item allows by itself what it stands for. -/
theorem allows_item (htrim : trim item = item) (hne : item ≠ "") (hcut : ¬CutsSigma item) :
    (AllowList.ofEntries [item]).allows r = true ↔ Admits item r := by
  rw [allows_singleton]
  by_cases hdot : '.' ∈ item.toList
  · obtain ⟨schema, table, hitem, hschema⟩ := List.eq_append_cons_of_mem hdot
    have hsplit := lowerChars_split.2 fun hsigma => hcut ⟨schema, table, hitem, hschema, hsigma⟩
    rw [ofString?_relation htrim hitem hschema, hsplit.1, hsplit.2, Option.any_some, covers_relation,
      admits_relation hitem hschema]
  · rw [ofString?_schema htrim hne hdot, Option.any_some, covers_schema]
    exact ⟨fun h => .inl ⟨hdot, h⟩, fun h => h.elim And.right fun ⟨_, _, hitem, _⟩ => absurd (by simp [hitem]) hdot⟩

/-- An item with a dot allows the relation that it spells unless its dot cuts a word apart. -/
theorem allows_spelled {schema table : List Char} (htrim : trim item = item)
    (hitem : item.toList = schema ++ '.' :: table) (hdot : '.' ∉ schema) :
    (AllowList.ofEntries [item]).allows ⟨String.ofList schema, String.ofList table⟩ = true ↔ ¬SigmaAtDot schema table := by
  rw [allows_singleton, ofString?_relation htrim hitem hdot, Option.any_some, covers_relation, String.toList_ofList,
    String.toList_ofList, lowerChars_split]

example : (AllowList.ofEntries ["ΑΣ.Τ"]).allows ⟨"ΑΣ", "Τ"⟩ = false := by decide +kernel

end Items

end AllowEntry

theorem AllowList.allows_iff_exists {items : List String} {r : Relation} :
    (AllowList.ofEntries items).allows r = true ↔ ∃ item ∈ items, (AllowList.ofEntries [item]).allows r = true := by
  have hitems : (AllowList.ofEntries items).allows r =
      items.any fun item => (AllowEntry.ofString? item).any (·.covers ⟨lower r.schema, lower r.table⟩) := by
    rw [AllowList.allows, AllowList.ofEntries, List.any_filterMap]
    refine congrArg (items.any ·) (funext fun item => ?_)
    cases AllowEntry.ofString? item <;> rfl
  simp only [hitems, List.any_eq_true, AllowEntry.allows_singleton]

/-! ## The setting -/

namespace Settings

theorem readPolicy_allowedRelations {e : Environment} {p : Policy} (h : readPolicy e = .ok p) :
    p.allowedRelations = allowList (e.getList allowedRelationsKey []) := by
  obtain ⟨defaultLimit, -, h⟩ := bind_ok_iff.1 h
  obtain ⟨maxLimit, -, h⟩ := bind_ok_iff.1 h
  obtain ⟨allowUnion, -, h⟩ := bind_ok_iff.1 h
  cases h
  rfl

theorem read_policy {e : Environment} {s : Settings} (h : read e = .ok s) : readPolicy e = .ok s.policy := by
  obtain ⟨poolSize, -, h⟩ := bind_ok_iff.1 h
  obtain ⟨maxRows, -, h⟩ := bind_ok_iff.1 h
  obtain ⟨timeout, -, h⟩ := bind_ok_iff.1 h
  obtain ⟨policy, hpolicy, h⟩ := bind_ok_iff.1 h
  obtain ⟨mapServer, -, h⟩ := bind_ok_iff.1 h
  cases h
  exact hpolicy

/-- What stands between commas of a value, trimmed, unless it is blank. -/
def IsItem (value item : String) : Prop :=
  item ≠ "" ∧ ∃ piece ∈ value.toList.splitOn ',', trim (String.ofList piece) = item

theorem mem_listItems {value item : String} : item ∈ Environment.listItems value ↔ IsItem value item := by
  simp [Environment.listItems, IsItem, and_comm]

/-- There is no allow-list if the setting has no item. Otherwise each item allows by itself what it stands for, unless
its dot cuts a word apart. -/
theorem read_allowedRelations {e : Environment} {value : String} {s : Settings}
    (hvalue : e.get? allowedRelationsKey = some value) (h : read e = .ok s) :
    (s.policy.allowedRelations = none ↔ ∀ item, ¬IsItem value item) ∧
      ∀ l, s.policy.allowedRelations = some l → ∀ r : Relation,
        (l.allows r = true ↔ ∃ item, IsItem value item ∧ (AllowList.ofEntries [item]).allows r = true) ∧
          ∀ item, IsItem value item → ¬AllowEntry.CutsSigma item →
            ((AllowList.ofEntries [item]).allows r = true ↔ AllowEntry.Admits item r) := by
  have hlist : s.policy.allowedRelations = allowList (Environment.listItems value) := by
    rw [readPolicy_allowedRelations (read_policy h), Environment.getList, hvalue]
  simp only [hlist, allowList, ← mem_listItems, List.isEmpty_iff]
  refine ⟨by simp [List.eq_nil_iff_forall_not_mem], fun l hl r => ?_⟩
  split at hl
  · cases hl
  · cases hl
    refine ⟨AllowList.allows_iff_exists, fun item hitem hcut => ?_⟩
    obtain ⟨hne, piece, -, htrim⟩ := mem_listItems.1 hitem
    exact AllowEntry.allows_item (htrim ▸ trim_trim _) hne hcut

theorem read_allowedRelations_geo :
    let e : Environment := { values := [(allowedRelationsKey, "Geo, public.countries")] }
    ∃ s l, e.get? allowedRelationsKey = some "Geo, public.countries" ∧ read e = .ok s ∧
      s.policy.allowedRelations = some l ∧ l.allows ⟨"geo", "rivers"⟩ = true := by
  intro e
  have hvalue : e.get? allowedRelationsKey = some "Geo, public.countries" := rfl
  refine ⟨_, _, hvalue, rfl, rfl, ?_⟩
  obtain ⟨-, hlist⟩ := read_allowedRelations hvalue rfl
  obtain ⟨hallows, hitem⟩ := hlist _ rfl ⟨"geo", "rivers"⟩
  have hgeo : IsItem "Geo, public.countries" "Geo" := mem_listItems.1 (by decide +kernel)
  refine hallows.2 ⟨"Geo", hgeo, (hitem "Geo" hgeo ?_).2 (.inl ⟨by decide +kernel, by decide +kernel⟩)⟩
  rintro ⟨schema, table, hsplit, -⟩
  have hdot : '.' ∈ "Geo".toList := by simp [hsplit]
  exact absurd hdot (by decide +kernel)

/-- Separators alone do not restrict anything. -/
theorem read_separators :
    let e : Environment := { values := [(allowedRelationsKey, " , ")] }
    e.get? allowedRelationsKey = some " , " ∧ ∃ s, read e = .ok s ∧ s.policy.allowedRelations = none :=
  ⟨rfl, _, rfl, rfl⟩

end Settings

end SpatialQuery
