import SegsLauncher.ServerList
import SegsLauncher.Session
/-!
# What is shown after the first fetch

`start_up` connects `populate_server_list` and sends the request; the list is filled, and the first sweep
requested, only when `handle_servers_reply` emits `fetchServerListFinished`. It does so for every body it
can read, one that is not even JSON included, and not at all when the request failed.

| here | there |
| --- | --- |
| `FetchOutcome`      | how the request of `fetch_community_servers` ends: `error()`, or the bytes of `readAll()` |
| `wellFormedServers` | `QJsonDocument::fromJson(reply)` is an object whose `Servers` is an array |
| `ShowsSaved`        | the window after `start_up` and `handle_servers_reply` |
-/
namespace SegsLauncher

open Launcher MainWindow

inductive FetchOutcome where
  | body (reply : QByteArray)
  | error

/-- The event `handle_servers_reply` makes of it. -/
def FetchOutcome.event (fromJson : QByteArray → Document) : FetchOutcome → Event
  | .body reply => .serversReply (fromJson reply)
  | .error => .serversReplyError

def wellFormedServers (jsonResponse : Document) : Bool := (JsonObject.get jsonResponse.object "Servers").isArray

/-- The request succeeded and its body has a `Servers` array. -/
def FetchOutcome.wellFormed (fromJson : QByteArray → Document) : FetchOutcome → Bool
  | .body reply => wellFormedServers (fromJson reply)
  | .error => false

/-- The two sections of saved records. -/
def recordLocations : Set Location := Region.communityServers.locations ∪ Region.localServers.locations

/-- Once the fetch is over, every saved record has a row and a sweep is requested; without a well-formed
    answer the saved records are those from before. -/
def ShowsSaved (fromJson : QByteArray → Document) (stores : Stores) (outcome : FetchOutcome) : Prop :=
  ∃ app, Runs.run App.step (App.init stores) [.startUp, outcome.event fromJson] = some app ∧
    (∀ record ∈ getServerList app.stores.settings, record ∈ app.serverListModel.map Row.record) ∧
    0 < app.getServerStatus ∧
    (outcome.wellFormed fromJson = false →
      (getServerList app.stores.settings).Perm (getServerList stores.settings) ∧
        ∀ l ∈ recordLocations, app.stores.get l = stores.get l)

/-! ## The request -/

theorem startUp_of_configured {stores : Stores} (h : initialConfigured stores.settings = true) :
    ∃ x y f, startUp (App.init stores) = fetchServerList
      { App.init stores with textFieldScreenX := x, textFieldScreenY := y, checkBoxFullscreen := f } := by
  have hfetch := (startUp_fetches (App.init stores)).trans h
  rw [decide_eq_true_iff] at hfetch
  rcases startUp_cases (App.init stores) with hs | hs
  · rw [hs] at hfetch
    exact absurd hfetch (Nat.lt_irrefl _)
  · exact hs

/-- `start_up` sends one request and connects `populate_server_list` once. -/
theorem run_startUp {stores : Stores} (h : initialConfigured stores.settings = true) (e : Event) :
    ∃ app : App, app.stores = stores ∧ app.serversInFlight = 1 ∧ app.fetchServerListFinished = 1 ∧
      app.getServerStatus = 0 ∧ Runs.run App.step (App.init stores) [.startUp, e] = app.step e := by
  obtain ⟨x, y, f, hs⟩ := startUp_of_configured h
  refine ⟨startUp (App.init stores), ?_, ?_, ?_, ?_, ?_⟩
  · rw [hs]
    rfl
  · rw [hs]
    rfl
  · rw [hs]
    rfl
  · rw [hs]
    rfl
  · exact Runs.run_singleton (startUp (App.init stores)) e

/-! ## The answer -/

/-- Without a `Servers` array nothing is saved. -/
theorem saveServersReply_of_malformed {jsonResponse : Document} (h : wellFormedServers jsonResponse = false)
    (st : Store) : saveServersReply jsonResponse st = st := by
  have hempty : serversArray jsonResponse = [] := by
    unfold wellFormedServers at h
    unfold serversArray
    cases hv : JsonObject.get jsonResponse.object "Servers" with
    | array vs => rw [hv] at h; cases h
    | _ => rfl
  rw [saveServersReply_eq, hempty]
  rfl

/-- One run of `populate_server_list` shows what is saved and requests a sweep. -/
theorem populateServerList_shows (app : App) :
    (∀ record ∈ getServerList (populateServerList app).stores.settings,
      record ∈ (populateServerList app).serverListModel.map Row.record) ∧
    0 < (populateServerList app).getServerStatus ∧
    ∀ l ∈ recordLocations, (populateServerList app).stores.get l = app.stores.get l := by
  have hpop := populateServerList_populates app
  obtain ⟨rows, _, _, happ⟩ := populateServerList_spec app
  have hsel := happ ▸ getLastUsedServer_selects _
  refine ⟨?_, ?_, ?_⟩
  · intro record hrecord
    apply hpop.records.mem_iff.2
    rw [hpop.list] at hrecord
    simp [hrecord]
  · rw [hsel.getServerStatus]
    exact Nat.succ_pos _
  · intro l hl
    refine populateServerList_get app ?_
    rcases hl with hl | hl
    · exact Set.disjoint_left.1 (Region.disjoint .communityServers .selectedServer (by decide)) hl
    · exact Set.disjoint_left.1 (Region.disjoint .localServers .selectedServer (by decide)) hl

/-- A body, of whatever shape, is saved from and then shown. -/
theorem step_serversReply {app : App} (hflight : 0 < app.serversInFlight)
    (hconnected : app.fetchServerListFinished = 1) (jsonResponse : Document) :
    ∃ saved : App, saved.stores = { app.stores with settings := saveServersReply jsonResponse app.stores.settings } ∧
      app.step (.serversReply jsonResponse) = some (populateServerList saved) := by
  refine ⟨{ app with
    serversInFlight := app.serversInFlight - 1
    stores := { app.stores with settings := saveServersReply jsonResponse app.stores.settings } }, rfl, ?_⟩
  rw [App.step, if_pos hflight, handleServersReply]
  simp only [hconnected]
  rfl

/-- An error is dropped: no list, no sweep. -/
theorem step_serversReplyError {app app' : App} (h : app.step .serversReplyError = some app') :
    app'.getServerStatus = app.getServerStatus := by
  simp only [App.step, Option.ite_none_right_eq_some, Option.some.injEq] at h
  rw [← h.2]

theorem not_showsSaved_of_error (fromJson : QByteArray → Document) {stores : Stores}
    (h : initialConfigured stores.settings = true) : ¬ ShowsSaved fromJson stores .error := by
  obtain ⟨app, _, _, _, hsweeps, hrun⟩ := run_startUp h .serversReplyError
  rintro ⟨app', hstep, _, hsweep, _⟩
  rw [step_serversReplyError (hrun.symm.trans hstep), hsweeps] at hsweep
  exact absurd hsweep (Nat.lt_irrefl 0)

theorem showsSaved_of_body (fromJson : QByteArray → Document) {stores : Stores}
    (h : initialConfigured stores.settings = true) (reply : QByteArray) :
    ShowsSaved fromJson stores (.body reply) := by
  obtain ⟨app, hstores, hflight, hconnected, _, hrun⟩ := run_startUp h (.serversReply (fromJson reply))
  obtain ⟨saved, hsaved, hstep⟩ := step_serversReply (by omega) hconnected (fromJson reply)
  obtain ⟨hshown, hsweep, hlocations⟩ := populateServerList_shows saved
  refine ⟨populateServerList saved, hrun.trans hstep, hshown, hsweep, ?_⟩
  intro hmalformed
  have hsame : saved.stores = stores := by
    have hdoc : wellFormedServers (fromJson reply) = false := hmalformed
    rw [hsaved, saveServersReply_of_malformed hdoc, hstores]
  rw [← hsame]
  exact ⟨List.Perm.of_eq (populateServerList_populates saved).list, hlocations⟩

/-- **The saved servers are shown exactly when the request succeeds**, whatever its body is. -/
theorem showsSaved_iff (fromJson : QByteArray → Document) (stores : Stores) (outcome : FetchOutcome)
    (h : initialConfigured stores.settings = true) :
    ShowsSaved fromJson stores outcome ↔ outcome ≠ .error := by
  cases outcome with
  | error => exact iff_of_false (not_showsSaved_of_error fromJson h) fun hne => hne rfl
  | body reply => exact iff_of_true (showsSaved_of_body fromJson h reply) fun he => by cases he

/-- A finished setup and one server of the user's own. -/
def configured : Stores where
  settings := addLocalServer (serverObj "Home" "127.0.0.1")
    ((∅ : Store).insert [seg "LauncherConfig", seg "InitialConfig"] (.bool true))
  registry := ∅

theorem configured_initialConfigured : initialConfigured configured.settings = true := by
  have hkept : configured.settings.lookup [seg "LauncherConfig", seg "InitialConfig"] = some (.bool true) := by
    rw [configured, addLocalServer_lookup _ _ _ (by simp [localServers]), AList.lookup_insert]
  rw [initialConfigured, hkept]
  rfl

theorem showsSaved_iff_empty_body : ShowsSaved (fun _ => none) configured (.body []) :=
  (showsSaved_iff (fun _ => none) configured (.body []) configured_initialConfigured).2 (by simp)

/-- Offline, the user's own server is not shown. -/
theorem not_showsSaved_offline : ¬ ShowsSaved (fun _ => none) configured .error :=
  not_showsSaved_of_error _ configured_initialConfigured

end SegsLauncher
