import Mathlib.Data.List.Basic
import SpatialQuery.GeoServer
import SpatialQuery.Proofs.Url.Paths

/-!
The parts of identities. A part may have blanks around it, and quotes within the blanks; without blanks it is a
plain name (`isPlainName_iff_trim`). The text of an identity tells its parts (`display_eq_iff`), while the path of
its layer leaves out tabs and line breaks: it has the parts as they are exactly if they are plain names
(`identity_plain_iff`).
-/

namespace SpatialQuery.ViewId

open Identifier

/-! ## Parts -/

theorem plain_of_unquote? {cs name : List Char} (h : unquote? cs = some name) :
    cs = name ∨ cs = '"' :: name ++ ['"'] := by
  unfold unquote? at h
  split at h
  · rename_i ds
    split at h
    · rename_i hlast
      obtain ⟨init, rfl⟩ := List.getLast?_eq_some_iff.1 (eq_of_beq hlast)
      rw [List.dropLast_concat] at h
      obtain rfl := Option.some.inj h
      exact .inr rfl
    · cases h
  · exact .inl (Option.some.inj h)

/-- What is left of a part without the blanks around it. -/
theorem trim_of_isPart {s : String} (h : isPart s = true) :
    ∃ name, isPlainName name = true ∧ ((Text.trim s).toList = name ∨ (Text.trim s).toList = '"' :: name ++ ['"']) := by
  rw [isPart, Bool.and_eq_true, ofString?] at h
  cases hname : unquote? (Text.trim s).toList with
  | none =>
    rw [hname] at h
    cases h.2
  | some name =>
    rw [hname] at h
    dsimp only at h
    split at h
    · rename_i hplain
      exact ⟨name, hplain, plain_of_unquote? hname⟩
    · cases h.2

/-- A part consists of blanks, quotes and the characters of a name. -/
theorem mem_part {s : String} (h : isPart s = true) {c : Char} (hc : c ∈ s.toList) :
    Text.isBlank c = true ∨ c = '"' ∨ isNamePart c = true := by
  obtain ⟨name, hplain, hname⟩ := trim_of_isPart h
  obtain ⟨before, after, hsplit, hblank⟩ := Text.trim_split s
  rw [hsplit, List.append_assoc, List.mem_append, List.mem_append] at hc
  rw [List.forall_mem_append] at hblank
  rcases hc with hc | hc | hc
  · exact .inl (hblank.1 c hc)
  · right
    rcases hname with hname | hname
    · rw [hname] at hc
      exact .inr (isNamePart_of_plain hplain c hc)
    · rw [hname, List.cons_append, List.mem_cons, List.mem_append, List.mem_singleton] at hc
      rcases hc with hc | hc | hc
      · exact .inl hc
      · exact .inr (isNamePart_of_plain hplain c hc)
      · exact .inl hc
  · exact .inl (hblank.2 c hc)

theorem isBlank_of_isNamePart {c : Char} (h : isNamePart c = true) : Text.isBlank c = false :=
  Text.isBlank_of_printable (Url.printable_of_isNamePart h)

theorem trim_of_unblank {s : String} (h : ∀ c ∈ s.toList, Text.isBlank c = false) : Text.trim s = s := by
  have htrim := Text.trim_eq_self h
  rwa [String.ofList_toList] at htrim

/-- Blanks around a part are all that keeps it from being a plain name. -/
theorem isPlainName_iff_trim {s : String} (h : isPart s = true) :
    isPlainName s.toList = true ↔ Text.trim s = s := by
  constructor
  · exact fun hplain => trim_of_unblank fun c hc => isBlank_of_isNamePart (isNamePart_of_plain hplain c hc)
  · intro htrim
    obtain ⟨name, hplain, hname⟩ := trim_of_isPart h
    rw [htrim] at hname
    rcases hname with hname | hname
    · rwa [hname]
    · rw [isPart, hname] at h
      cases h

theorem isPlainName_of_unblank {s : String} (h : isPart s = true) (hs : ∀ c ∈ s.toList, Text.isBlank c = false) :
    isPlainName s.toList = true :=
  (isPlainName_iff_trim h).2 (trim_of_unblank hs)

/-! ## Identities -/

/-- All parts are plain names. -/
def Plain (i : ViewId) : Prop :=
  ∀ p ∈ i.parts, isPlainName p.toList = true

theorem ofParts_ok {workspace datastore name : String} {i : ViewId} (h : ofParts workspace datastore name = .ok i) :
    i.parts = [workspace, datastore, name] ∧ ∀ p ∈ i.parts, isPart p = true := by
  unfold ofParts at h
  split at h
  · cases h
  · rename_i hparts
    cases h
    refine ⟨rfl, fun p hp => ?_⟩
    simpa using List.find?_eq_none.1 hparts p hp

theorem plain_iff_trim {i : ViewId} (h : ∀ p ∈ i.parts, isPart p = true) :
    i.Plain ↔ ∀ p ∈ i.parts, Text.trim p = p :=
  forall₂_congr fun p hp => isPlainName_iff_trim (h p hp)

theorem parts_injective {i j : ViewId} (h : i.parts = j.parts) : i = j := by
  cases i
  cases j
  cases h
  rfl

theorem slash_notMem_parts {i : ViewId} (h : ∀ p ∈ i.parts, isPart p = true) :
    ∀ cs ∈ i.parts.map String.toList, '/' ∉ cs :=
  List.forall_mem_map.2 fun p hp hc => by
    rcases mem_part (h p hp) hc with hc | hc | hc <;> exact absurd hc (by decide)

theorem display_eq_iff {i j : ViewId} (hi : ∀ p ∈ i.parts, isPart p = true)
    (hj : ∀ p ∈ j.parts, isPart p = true) : i.display = j.display ↔ i = j := by
  have hpath : ∀ k : ViewId, '/' :: k.display.toList = Url.pathText (k.parts.map String.toList) := by
    intro k
    simp [display, parts, Url.pathText, toString]
  refine ⟨fun h => parts_injective ?_, congrArg display⟩
  have hsame := congrArg (fun s => '/' :: s.toList) h
  rw [hpath, hpath] at hsame
  have hparts := Url.pathText_injective (slash_notMem_parts hi) (slash_notMem_parts hj) hsame
  exact (List.map_injective_iff.2 fun _ _ => String.toList_inj.1) hparts

/-- The name of a layer consists of the characters of names and a colon exactly if its two parts are plain
names. -/
theorem layer_plain_iff {i : ViewId} (h : ∀ p ∈ i.parts, isPart p = true) :
    (∀ c ∈ i.layer.toList, isNamePart c = true ∨ c = ':') ↔
      isPlainName i.workspace.toList = true ∧ isPlainName i.name.toList = true := by
  simp only [parts, List.forall_mem_cons] at h
  have hchars : i.layer.toList = i.workspace.toList ++ ':' :: i.name.toList := by
    simp [layer, String.toList_append, toString]
  rw [hchars]
  constructor
  · intro hall
    have hunblank : ∀ c ∈ i.workspace.toList ++ ':' :: i.name.toList, Text.isBlank c = false := by
      intro c hc
      rcases hall c hc with hname | rfl
      · exact isBlank_of_isNamePart hname
      · decide
    rw [List.forall_mem_append, List.forall_mem_cons] at hunblank
    exact ⟨isPlainName_of_unblank h.1 hunblank.1, isPlainName_of_unblank h.2.2.1 hunblank.2.2⟩
  · rintro ⟨hworkspace, hname⟩
    refine List.forall_mem_append.2 ⟨fun c hc => .inl (isNamePart_of_plain hworkspace c hc), ?_⟩
    exact List.forall_mem_cons.2 ⟨.inr rfl, fun c hc => .inl (isNamePart_of_plain hname c hc)⟩

/-! ## Paths -/

/-- The names in the path of a layer. -/
def pathNames (i : ViewId) : List String :=
  ["rest", "workspaces", i.workspace, "datastores", i.datastore, "featuretypes", i.name]

theorem no_dots {s : String} (h : isPart s = true) : s ≠ "." ∧ s ≠ ".." := by
  constructor
  · rintro rfl
    revert h
    decide
  · rintro rfl
    revert h
    decide

theorem layerUrl_path {i : ViewId} (h : ∀ p ∈ i.parts, isPart p = true) (g : GeoServer) :
    (g.layerUrl i).path =
      Url.openPath g.base.path ++ i.pathNames.map (Url.segmentText (Url.isSpecial g.base.scheme)) := by
  have hparts := fun p hp => no_dots (h p hp)
  simp only [parts, List.forall_mem_cons] at hparts
  obtain ⟨hworkspace, hdatastore, hname, -⟩ := hparts
  have hlayers : (g.layersUrl i).path = Url.openPath g.base.path ++
      ["rest", "workspaces", i.workspace, "datastores", i.datastore, "featuretypes"].map
        (Url.segmentText (Url.isSpecial g.base.scheme)) := by
    refine Url.append_path ?_
    simp only [List.forall_mem_cons]
    exact ⟨by decide, by decide, hworkspace, by decide, hdatastore, by decide, List.forall_mem_nil _⟩
  have hopen : Url.openPath (g.layersUrl i).path = (g.layersUrl i).path := by
    have hkeep := Url.segmentText_name (s := "featuretypes") (List.all_eq_true.1 (by decide))
      (Url.isSpecial g.base.scheme)
    have hne : Url.segmentText (Url.isSpecial g.base.scheme) "featuretypes" ≠ [] := by
      rw [hkeep]
      decide
    have hlast : ["rest", "workspaces", i.workspace, "datastores", i.datastore, "featuretypes"] =
        ["rest", "workspaces", i.workspace, "datastores", i.datastore] ++ ["featuretypes"] := rfl
    rw [hlayers, hlast, List.map_append, ← List.append_assoc]
    exact Url.openPath_concat _ hne
  rw [GeoServer.layerUrl, Url.append_path (List.forall_mem_singleton.2 hname), hopen, hlayers, List.append_assoc]
  rfl

/-- The path has all names as they are exactly if the parts are plain names. -/
theorem path_plain_iff {i : ViewId} (h : ∀ p ∈ i.parts, isPart p = true) (g : GeoServer) :
    (g.layerUrl i).path = Url.openPath g.base.path ++ i.pathNames.map String.toList ↔ i.Plain := by
  rw [layerUrl_path h, List.append_cancel_left_eq]
  constructor
  · intro hpath p hp
    have hmem : p ∈ i.pathNames := by
      simp only [parts, pathNames, List.mem_cons] at hp ⊢
      tauto
    have hkeep := List.map_inj_left.1 hpath p hmem
    refine isPlainName_of_unblank (h p hp) fun c hc => ?_
    rw [← hkeep] at hc
    exact Url.unblank_segmentText hc
  · intro hplain
    refine List.map_congr_left fun s hs => Url.segmentText_name ?_ _
    have hpart : ∀ p ∈ i.parts, ∀ c ∈ p.toList, isNamePart c = true := fun p hp =>
      isNamePart_of_plain (hplain p hp)
    simp only [parts, List.forall_mem_cons] at hpart
    revert s
    simp only [pathNames, List.forall_mem_cons]
    exact ⟨List.all_eq_true.1 (by decide), List.all_eq_true.1 (by decide), hpart.1, List.all_eq_true.1 (by decide),
      hpart.2.1, List.all_eq_true.1 (by decide), hpart.2.2.1, List.forall_mem_nil _⟩

theorem path_eq_iff {i j : ViewId} (hi : ∀ p ∈ i.parts, isPart p = true) (hj : ∀ p ∈ j.parts, isPart p = true)
    (g : GeoServer) : Url.pathText (g.layerUrl i).path = Url.pathText (g.layerUrl j).path ↔
      i.parts.map Url.carried = j.parts.map Url.carried := by
  have hslash : ∀ k : ViewId, ∀ s ∈ k.pathNames.map (Url.segmentText (Url.isSpecial g.base.scheme)), '/' ∉ s :=
    fun k => List.forall_mem_map.2 fun p _ => Url.slash_notMem_segmentText _ p
  rw [layerUrl_path hi, layerUrl_path hj, Url.pathText_append, Url.pathText_append, List.append_cancel_left_eq]
  constructor
  · intro h
    have hnames := Url.pathText_injective (hslash i) (hslash j) h
    simp only [pathNames, List.map_cons, List.cons.injEq, Url.segmentText_eq_iff] at hnames
    obtain ⟨-, -, hworkspace, -, hdatastore, -, hname, -⟩ := hnames
    simp only [parts, List.map_cons, hworkspace, hdatastore, hname]
  · intro h
    simp only [parts, List.map_cons, List.cons.injEq] at h
    obtain ⟨hworkspace, hdatastore, hname, -⟩ := h
    simp only [pathNames, List.map_cons, Url.segmentText_eq_iff.2 hworkspace, Url.segmentText_eq_iff.2 hdatastore,
      Url.segmentText_eq_iff.2 hname]

theorem eq_of_carried {i j : ViewId} (hi : i.Plain) (hj : j.Plain)
    (h : i.parts.map Url.carried = j.parts.map Url.carried) : i = j := by
  have hkeep : ∀ {k : ViewId}, k.Plain → k.parts.map Url.carried = k.parts.map String.toList := fun hk =>
    List.map_congr_left fun p hp => Url.carried_name (isNamePart_of_plain (hk p hp))
  rw [hkeep hi, hkeep hj] at h
  exact parts_injective ((List.map_injective_iff.2 fun _ _ => String.toList_inj.1) h)

/-- The parts of an identity are plain names exactly if none has blanks around it, and exactly if they stand in
the path of its layer as they are. Other identities have other texts, and other paths up to tabs and line
breaks. -/
theorem identity_plain_iff {workspace datastore name : String} {i : ViewId}
    (h : ofParts workspace datastore name = .ok i) (g : GeoServer) :
    i.parts = [workspace, datastore, name] ∧
    (i.Plain ↔ ∀ p ∈ i.parts, Text.trim p = p) ∧
    (i.Plain ↔ (g.layerUrl i).path = Url.openPath g.base.path ++ i.pathNames.map String.toList) ∧
    (isPlainName i.workspace.toList = true ∧ isPlainName i.name.toList = true ↔
      ∀ c ∈ i.layer.toList, isNamePart c = true ∨ c = ':') ∧
    ∀ {workspace' datastore' name' : String} {j : ViewId}, ofParts workspace' datastore' name' = .ok j →
      (i.display = j.display ↔ i = j) ∧
      (Url.pathText (g.layerUrl i).path = Url.pathText (g.layerUrl j).path ↔
        i.parts.map Url.carried = j.parts.map Url.carried) ∧
      (i.Plain → j.Plain → Url.pathText (g.layerUrl i).path = Url.pathText (g.layerUrl j).path → i = j) := by
  obtain ⟨hparts, hi⟩ := ofParts_ok h
  refine ⟨hparts, plain_iff_trim hi, (path_plain_iff hi g).symm, (layer_plain_iff hi).symm, fun h' => ?_⟩
  obtain ⟨-, hj⟩ := ofParts_ok h'
  refine ⟨display_eq_iff hi hj, path_eq_iff hi hj g, fun hplain hplain' hpath => ?_⟩
  exact eq_of_carried hplain hplain' ((path_eq_iff hi hj g).1 hpath)

/-- A layer of a server under a root of its own. -/
theorem identity_plain_roads :
    let g : GeoServer := ⟨⟨"http".toList, some { host := "maps".toList }, ["geo".toList, []], none, none⟩, "", ""⟩
    let i : ViewId := ⟨"atlas", "postgis", "roads"⟩
    ofParts "atlas" "postgis" "roads" = .ok i ∧ i.Plain ∧
      String.ofList (Url.pathText (g.layerUrl i).path) =
        "/geo/rest/workspaces/atlas/datastores/postgis/featuretypes/roads" ∧
      (∀ c ∈ i.layer.toList, isNamePart c = true ∨ c = ':') ∧
      ∀ {w d n : String} {j : ViewId}, ofParts w d n = .ok j → i.display = j.display → i = j := by
  intro g i
  have h : ofParts "atlas" "postgis" "roads" = .ok i := by decide
  obtain ⟨-, htrim, hpath, hlayer, hother⟩ := identity_plain_iff h g
  have hplain : i.Plain := htrim.2 (by decide)
  refine ⟨h, hplain, ?_, hlayer.1 (by decide), fun hj => (hother hj).1.1⟩
  rw [hpath.1 hplain]
  decide

/-- A tab in front of a name is a part of the identity, and not of the path. -/
theorem identity_tab :
    let i : ViewId := ⟨"\tatlas", "postgis", "roads"⟩
    let j : ViewId := ⟨"atlas", "postgis", "roads"⟩
    ofParts "\tatlas" "postgis" "roads" = .ok i ∧ ofParts "atlas" "postgis" "roads" = .ok j ∧ i ≠ j ∧ ¬ i.Plain ∧
      ∀ g : GeoServer, Url.pathText (g.layerUrl i).path = Url.pathText (g.layerUrl j).path := by
  intro i j
  have hi : ofParts "\tatlas" "postgis" "roads" = .ok i := by decide
  have hj : ofParts "atlas" "postgis" "roads" = .ok j := by decide
  refine ⟨hi, hj, by decide, fun hplain => ?_, fun g => ?_⟩
  · exact absurd (hplain "\tatlas" List.mem_cons_self) (by decide)
  · exact (path_eq_iff (ofParts_ok hi).2 (ofParts_ok hj).2 g).2 (by decide)

/-- A blank in front hides the quotes around a name. -/
theorem identity_quoted :
    let i : ViewId := ⟨" \"atlas\"", "postgis", "roads"⟩
    ofParts " \"atlas\"" "postgis" "roads" = .ok i ∧ ¬ i.Plain ∧ i.layer = " \"atlas\":roads" := by
  intro i
  refine ⟨by decide, fun hplain => ?_, by decide⟩
  exact absurd (hplain " \"atlas\"" List.mem_cons_self) (by decide)

end SpatialQuery.ViewId
