import SpatialQuery.Proofs.Calendar.RoundTrip
import SpatialQuery.Proofs.Definition.Stored
import SpatialQuery.Proofs.Store.Order
import SpatialQuery.Store.File

/-!
A store is loaded from the file that it was written to (`load_ofStore`), if its queries are sorted and each of them
can be stored (`Store.Kept`).
-/

namespace SpatialQuery

open Json

variable {depth : Nat}

theorem QueryKey.encodes_toJson (k : QueryKey) (hdepth : depth < maxDepth) : Encodes ofJson? depth k.toJson k := by
  have hfields : k.toJson = .obj (present [("schema", some (.str k.schema)), ("table", some (.str k.table)),
      ("name", some (.str k.name))]) := rfl
  rw [hfields]
  refine ⟨writable_present hdepth ?_, ?_⟩
  · simp [Writable]
  · rw [ofJson?, record?_present]
    · simp [required, asString?]
    · rfl
    · decide

theorem Calendar.DateTime.Regular.encodes {t : Calendar.DateTime} (h : t.Regular) :
    Encodes asTime? depth (.str (String.ofList t.utcText)) t :=
  ⟨trivial, by simpa [asTime?, asString?] using Calendar.readLooseUtc?_utcText h⟩

/-- The query can be stored. -/
structure SavedQuery.Kept (q : SavedQuery) : Prop where
  definition : q.definition.Storable
  revision : q.revision < UInt64.size
  savedAt : q.savedAt.Regular

namespace SavedQuery

/-- The fields of a query with a given definition. -/
def fields (q : SavedQuery) (definition : Json) : List (String × Option Json) :=
  [("key", some q.key.toJson), ("definition", some definition), ("revision", some (.ofNat q.revision)),
    ("savedAt", some (.str (String.ofList q.savedAt.utcText)))]

theorem toJson_eq (q : SavedQuery) : q.toJson = .obj (present (q.fields q.definition.toJson)) := rfl

theorem encodes_revision {q : SavedQuery} (h : q.revision < UInt64.size) :
    Encodes (asNat? Text.maxNat64) depth (.ofNat q.revision) q.revision :=
  encodes_nat (Nat.le_refl _) (Nat.le_sub_one_of_lt h)

theorem ofJson?_fields {q : SavedQuery} (hrevision : q.revision < UInt64.size) (hsavedAt : q.savedAt.Regular)
    (definition : Json) : ofJson? (.obj (present (q.fields definition))) =
      (Definition.ofJson? definition).map fun d => { q with definition := d } := by
  have hkey : Encodes QueryKey.ofJson? 3 _ q.key := q.key.encodes_toJson (by decide)
  have hrevision : Encodes (asNat? Text.maxNat64) 3 _ q.revision := encodes_revision hrevision
  have hsavedAt : Encodes asTime? 3 _ q.savedAt := hsavedAt.encodes
  have hrecord : record? ["key", "definition", "revision", "savedAt"] (.obj (present (q.fields definition))) =
      some ((q.fields definition).map Prod.snd) := record?_present rfl (by decide)
  rw [ofJson?, hrecord]
  simp only [fields, List.map_cons, List.map_nil, Option.bind_eq_bind, Option.bind_some, required, hkey.read,
    hrevision.read, hsavedAt.read]
  cases Definition.ofJson? definition <;> rfl

theorem Kept.encodes {q : SavedQuery} (h : q.Kept) : Encodes SavedQuery.ofJson? 2 q.toJson q := by
  have hkey : Encodes QueryKey.ofJson? 3 _ q.key := q.key.encodes_toJson (by decide)
  have hdefinition := Definition.encodes_toJson h.definition
  have hrevision : Encodes (asNat? Text.maxNat64) 3 _ q.revision := encodes_revision h.revision
  rw [q.toJson_eq]
  refine ⟨writable_present (by decide) ?_, ?_⟩
  · simpa [fields, Writable] using ⟨hkey.writable, hdefinition.writable, hrevision.writable⟩
  · rw [ofJson?_fields h.revision h.savedAt, hdefinition.read]
    rfl

end SavedQuery

namespace Store

/-- The store can be kept in a file. -/
structure Kept (s : Store) : Prop where
  sorted : Sorted s.queries
  queries : ∀ q ∈ s.queries, q.Kept

/-- The fields of a document with given queries. -/
def fields (queries : Json) : List (String × Option Json) :=
  [("version", some (.ofNat version)), ("queries", some queries)]

theorem toJson_eq (s : Store) : s.toJson = .obj (present (fields (.arr (s.queries.map SavedQuery.toJson)))) := rfl

theorem ofJson?_fields (queries : Json) :
    ofJson? (.obj (present (fields queries))) = (asList? SavedQuery.ofJson? queries).map ofList := by
  have hrecord : record? ["version", "queries"] (.obj (present (fields queries))) =
      some ((fields queries).map Prod.snd) := record?_present rfl (by decide)
  have hversion : asNat? (UInt32.size - 1) (.ofNat version) = some version := rfl
  rw [ofJson?, hrecord]
  simp only [fields, List.map_cons, List.map_nil, Option.bind_eq_bind, Option.bind_some, required, hversion]
  cases asList? SavedQuery.ofJson? queries <;> rfl

theorem Kept.encodes {s : Store} (h : s.Kept) : Encodes ofJson? 0 s.toJson s := by
  have hqueries : Encodes (asList? SavedQuery.ofJson?) 1 _ s.queries :=
    encodes_list (by decide) fun q hq => (h.queries q hq).encodes
  rw [s.toJson_eq]
  refine ⟨writable_present (by decide) ?_, ?_⟩
  · have hversion : Writable 1 (.ofNat version) := ⟨by decide, by decide⟩
    simpa [fields, Writable] using ⟨hversion, hqueries.writable⟩
  · rw [ofJson?_fields, hqueries.read, Option.map_some, ofList_sorted h.sorted]

theorem ofDocument?_document {s : Store} (h : s.Kept) : ofDocument? s.document = some s := by
  have hbreak : ∀ c ∈ "\n".toList, isSpace c = true := List.forall_mem_singleton.2 rfl
  rw [ofDocument?, document, read?_pretty h.encodes.writable hbreak, Option.bind_some, h.encodes.read]

/-- A store is loaded from its file. -/
theorem File.load_ofStore {s : Store} (h : s.Kept) : (ofStore s).load = .ok s := by
  rw [ofStore, load, ofDocument?_document h]

end Store

end SpatialQuery
