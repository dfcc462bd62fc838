import SpatialQuery.Proofs.GeoServer.Answers
import SpatialQuery.Proofs.Json.RoundTrip
import SpatialQuery.Proofs.Service.Outcomes

/-!
A view that gets the statement it already has. Whatever the server answers for it, nothing is sent but the
request for the view, so its key column stays too (`revise_unchanged`).
-/

namespace SpatialQuery.GeoServer

/-- A network that answers the same requests alike, and records the requests. -/
def recorded (answers : Http.Request → Option Http.Response) : Http.Network (StateM (List Http.Request)) :=
  fun q sent => (answers q, sent ++ [q])

theorem send_recorded {answers : Http.Request → Option Http.Response} {q : Http.Request} {r : Http.Response}
    (hweb : Url.isWeb q.url.scheme = true) (hr : answers q = some r) (hsuccess : r.isSuccess = true)
    (sent : List Http.Request) : (send (recorded answers) q).run.run sent = (.ok r, sent ++ [q]) := by
  have haccepted : accepted r = .ok r := by rw [accepted, hsuccess]; rfl
  have hreply : (liftM (recorded answers q) : ExceptT View.PublishError (StateM (List Http.Request))
      (Option Http.Response)).run.run sent = (.ok (some r), sent ++ [q]) := by
    rw [← hr]
    rfl
  unfold send
  rw [hweb]
  refine (run_bind_ok hreply _).trans ?_
  dsimp only
  rw [haccepted]
  rfl

/-- The service reads the view that is described. -/
theorem fetch_recorded {g : GeoServer} {id : ViewId} {answers : Http.Request → Option Http.Response}
    {r : Http.Response} (hweb : Url.isWeb g.base.scheme = true) (hr : answers (g.fetchRequest id) = some r)
    (hsuccess : r.isSuccess = true) {j : Json} (hbody : Json.read? r.body = some j) {f : FeatureType} {w : View}
    (hf : FeatureType.ofJson? j = some f) (hw : f.view id = .ok w) (sent : List Http.Request) :
    ((g.service (recorded answers)).fetch id).run.run sent = (.ok (some w), sent ++ [g.fetchRequest id]) := by
  have hfound : r.isNotFound = false := by
    have hstatus : 200 ≤ r.status ∧ r.status < 300 := by simpa [Http.Response.isSuccess] using hsuccess
    rw [Http.Response.isNotFound, beq_eq_false_iff_ne]
    omega
  have hread : readView (g.fetchRequest id) id r = .ok (some w) := by
    rw [readView, hfound, hbody, Option.bind_some, hf]
    dsimp only
    rw [hw]
    rfl
  have hsend := send_recorded (q := g.fetchRequest id) hweb hr hsuccess sent
  refine (run_bind_ok hsend _).trans ?_
  rw [hread]
  rfl

/-- A service that has the view already sends nothing more. -/
theorem revise_fetched {g : GeoServer} {n : Http.Network (StateM (List Http.Request))} {id : ViewId}
    {s : Validated} {geometry : Option Geometry.Column} {v w : View}
    (hv : View.ofStatement id s geometry none = .ok v) {sent sent' : List Http.Request}
    (hfetch : ((g.service n).fetch id).run.run sent = (.ok (some w), sent'))
    (hsame : w.sameDefinition { v with keyColumn := w.keyColumn } = true) :
    ((g.service n).revise id s geometry).run.run sent = (.ok (g.endpoints id), sent') := by
  have hview : (liftM (View.ofStatement id s geometry none) :
      ExceptT View.PublishError (StateM (List Http.Request)) _).run.run sent = (.ok v, sent) := by
    rw [hv]
    rfl
  unfold Service.revise
  refine (run_bind_ok hview _).trans ((run_bind_ok hfetch _).trans ?_)
  dsimp only
  rw [hsame, if_pos rfl]
  rfl

/-- Whatever is answered for a view is read as the same view. So if it gets its statement again, nothing is sent
but the request for the view. -/
theorem revise_unchanged {id : ViewId} {s : Validated} {geometry : Option Geometry.Column} {key : Option String}
    {v : View} (h : View.ofStatement id s geometry key = .ok v)
    (hsrid : -0x80000000 ≤ v.geometry.srid ∧ v.geometry.srid ≤ 0x7FFFFFFF) :
    Answer (FeatureType.ofView v) (FeatureType.ofView v).toJson ∧
      ∀ j, Answer (FeatureType.ofView v) j →
        (∃ f w, FeatureType.ofJson? j = some f ∧ f.view id = .ok w ∧ w.sameDefinition v = true) ∧
          ∀ (g : GeoServer) (answers : Http.Request → Option Http.Response) (r : Http.Response),
            Url.isWeb g.base.scheme = true → answers (g.fetchRequest id) = some r → r.isSuccess = true →
              Json.read? r.body = some j →
                ((g.service (recorded answers)).revise id s geometry).run.run [] =
                  (.ok (g.endpoints id), [g.fetchRequest id]) := by
  obtain ⟨rfl, -, hview⟩ := ofStatement_ok h
  refine ⟨answer_toJson v, fun j hj => ?_⟩
  obtain ⟨f, w, hf, hw, hsame⟩ := view_of_answer (kinds_of_ok h) hsrid hj
  refine ⟨⟨f, w, hf, hw, hsame⟩, fun g answers r hweb hr hsuccess hbody => ?_⟩
  have hfetch := fetch_recorded hweb hr hsuccess hbody hf hw []
  refine revise_fetched hview hfetch ?_
  dsimp only
  rwa [keyColumn_of_sameDefinition hsame]

/-- What a server answers for a view of roads: there is another entry, a parameter that stands for the list, and
a line break behind the SQL text. -/
def roadsAnswer : Json :=
  .obj [("featureType", .obj [("name", .str "roads"), ("nativeName", .str "roads"), ("title", .str "roads"),
    ("srs", .str "EPSG:4326"), ("enabled", .bool true), ("metadata", .obj [("entry", .arr [
      .obj [("@key", .str "cachingEnabled"), ("$", .str "false")],
      .obj [("@key", .str Entry.tableKey), ("virtualTable", .obj [("name", .str "roads"),
        ("sql", .str "SELECT (%p1%)\n"), ("escapeSql", .bool false), ("keyColumn", .str "id"),
        ("geometry", .obj [("name", .str "geom"), ("type", .str "Point"), ("srid", .int 4326)]),
        ("parameter", .obj [("name", .str "p1"), ("defaultValue", .str "7"),
          ("regexpValidator", .str "^-?\\d+$")])])]])])])]

theorem revise_unchanged_roads :
    let id : ViewId := ⟨"ws", "db", "roads"⟩
    let s : Validated := ⟨.ofText "SELECT $1" [.int 7], none⟩
    let column : Geometry.Column := ⟨"geom", .point, 4326⟩
    let view : View := ⟨id, "SELECT (%p1%)", [.ofValue 1 (.int 7)], column, some "id"⟩
    let g : GeoServer := ⟨⟨"http".toList, some { host := "maps".toList }, [], none, none⟩, "admin", "secret"⟩
    View.ofStatement id s (some column) (some "id") = .ok view ∧ Answer (FeatureType.ofView view) roadsAnswer ∧
      Json.read? roadsAnswer.compact = some roadsAnswer ∧
      ((g.service (recorded fun _ => some ⟨200, roadsAnswer.compact⟩)).revise id s (some column)).run.run [] =
        (.ok (g.endpoints id), [g.fetchRequest id]) := by
  intro id s column view g
  have hscan : Scan.ofString "SELECT $1" =
      ⟨[⟨[], ⟨.word, "SELECT".toList⟩⟩, ⟨[' '], ⟨.placeholder 1, ['$', '1']⟩⟩], []⟩ := by
    rw [Scan.ofString, Lexical.ofChars_eq_scanWithin _ (Nat.le_refl _)]
    decide +kernel
  have hview : View.ofStatement id s (some column) (some "id") = .ok view := by
    unfold View.ofStatement View.template
    rw [show s.statement.sql = "SELECT $1" from rfl, hscan]
    decide +kernel
  have hsql : String.ofList ([] ++ "SELECT (%p1%)".toList ++ ['\n']) = "SELECT (%p1%)\n" := by decide +kernel
  have hsrs : (FeatureType.ofView view).srs = "EPSG:4326" := by decide +kernel
  have hparameter : ParameterField (VirtualTable.ofView view).parameters _ :=
    .some (List.cons_ne_nil _ _) (.only rfl)
  have htable := @TableAnswer.intro (VirtualTable.ofView view) [] ['\n'] _ (List.forall_mem_singleton.2 rfl) hparameter
  rw [show (VirtualTable.ofView view).sql = "SELECT (%p1%)" from rfl, hsql] at htable
  have hother : OtherEntry (.obj [("@key", .str "cachingEnabled"), ("$", .str "false")]) :=
    @OtherEntry.intro [] [("$", .str "false")] _ (by decide) (by simp [Json.readable])
  have hanswer := @Answer.intro (FeatureType.ofView view) _ _ _ [_] [] rfl htable (by simpa using hother) .all
  rw [hsrs] at hanswer
  change Answer (FeatureType.ofView view) roadsAnswer at hanswer
  have hread : Json.read? roadsAnswer.compact = some roadsAnswer :=
    Json.read?_compact (by
      simp [roadsAnswer, Json.Writable, Json.WritableItems, Json.WritableFields, Json.maxDepth, Text.maxNat64])
  exact ⟨hview, hanswer, hread, ((revise_unchanged hview ⟨by decide, by decide⟩).2 roadsAnswer hanswer).2 g _ _ rfl rfl
    rfl hread⟩

end SpatialQuery.GeoServer
