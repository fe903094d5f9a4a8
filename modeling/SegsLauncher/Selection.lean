import SegsLauncher.Lib.Runs
import SegsLauncher.Handlers
/-!
# The game connects to the server that is displayed

The game reads the address of its server from the stores; the window shows the row at `currentIndex`.
The stores are written as a side effect of an index change only, and an assignment that does not change
the index writes nothing. `Displayed` is nevertheless an invariant: rows are only appended or re-coloured
in place, so an index that was saved once still stands for the same server.
-/
namespace SegsLauncher

open Launcher MainWindow

/-- The stored selection: `ServerConfig/LastServerName`, `ServerConfig/LastServerIP` and registry `Auth`. -/
def SavedServer (stores : Stores) (serverName serverIp : String) : Prop :=
  stores.settings.lookup [seg "ServerConfig", seg "LastServerName"] = some (.string serverName) ∧
    stores.settings.lookup [seg "ServerConfig", seg "LastServerIP"] = some (.string serverIp) ∧
      stores.registry.lookup [seg "Auth"] = some (.string serverIp)

/-- A displayed server is the stored one. -/
def Displayed (app : App) : Prop :=
  0 ≤ app.currentIndex →
    ∃ row, app.row app.currentIndex = some row ∧ SavedServer app.stores row.serverName row.serverIp

theorem setServer_saved (serverName serverIp : String) (stores : Stores) :
    SavedServer (setServer (serverObj serverName serverIp) stores) serverName serverIp := by
  have hfields : ([(seg "LastServerName", QVariant.string serverName), (seg "LastServerIP", .string serverIp)].map
      Prod.fst).Nodup := by
    change [seg "LastServerName", seg "LastServerIP"].Nodup
    decide
  refine ⟨?_, ?_, ?_⟩
  · rw [setServer_settings]
    exact KeyTree.lookup_setFields_of_mem hfields (by simp)
  · rw [setServer_settings]
    exact KeyTree.lookup_setFields_of_mem hfields (by simp)
  · have hauth : ([(seg "Auth", QVariant.string serverIp)].map Prod.fst).Nodup := List.nodup_singleton _
    rw [setServer_registry]
    exact KeyTree.lookup_setFields_of_mem hauth (by simp)

theorem SavedServer.congr {stores stores' : Stores} {serverName serverIp : String}
    (h : ∀ l ∈ Region.selectedServer.locations, stores'.get l = stores.get l)
    (hs : SavedServer stores serverName serverIp) : SavedServer stores' serverName serverIp := by
  obtain ⟨hname, hip, hauth⟩ := hs
  refine ⟨?_, ?_, ?_⟩
  · exact (h (.settings [seg "ServerConfig", seg "LastServerName"]) (by simp [Region.locations])).trans hname
  · exact (h (.settings [seg "ServerConfig", seg "LastServerIP"]) (by simp [Region.locations])).trans hip
  · exact (h (.registry [seg "Auth"]) (by simp [Region.locations])).trans hauth

/-! ## Changes that keep the selection -/

/-- Rows may be appended and saves made elsewhere; the displayed row and the stored server stay. -/
theorem Displayed.extend {app app' : App} (h : Displayed app) (hi : app'.currentIndex = app.currentIndex)
    (hrows : app.serverListModel.map Row.record <+: app'.serverListModel.map Row.record)
    (hstores : ∀ l ∈ Region.selectedServer.locations, app'.stores.get l = app.stores.get l) :
    Displayed app' := by
  intro hpos
  rw [hi] at hpos ⊢
  obtain ⟨row, hrow, hsaved⟩ := h hpos
  obtain ⟨i, hi'⟩ := Int.eq_ofNat_of_zero_le hpos
  rw [hi', row_nat] at hrow ⊢
  have hrec : (app'.serverListModel.map Row.record)[i]? = some row.record := by
    obtain ⟨rest, hrest⟩ := hrows
    have hlt : i < (app.serverListModel.map Row.record).length := by
      have := (List.getElem?_eq_some_iff.1 hrow).1
      rwa [List.length_map]
    rw [← hrest, List.getElem?_append_left hlt, List.getElem?_map, hrow]
    rfl
  rw [List.getElem?_map, Option.map_eq_some_iff] at hrec
  obtain ⟨row', hrow', heq⟩ := hrec
  have hname : row'.serverName = row.serverName := congrArg ServerRecord.serverName heq
  have hip : row'.serverIp = row.serverIp := congrArg ServerRecord.serverIp heq
  refine ⟨row', hrow', ?_⟩
  rw [hname, hip]
  exact hsaved.congr hstores

theorem Displayed.reports {app app' : App} (h : Displayed app) (hr : Reports app app') : Displayed app' := by
  refine h.extend hr.currentIndex ?_ ?_
  · exact hr.records.symm ▸ List.prefix_rfl
  · intro l _
    rw [hr.stores]

/-! ## Assignments of the index -/

/-- Assigning the index of a row displays and stores that row's server, also when the index was that
    already: then nothing is written, and nothing needs to be. -/
theorem Displayed.setCurrentIndex {app : App} (h : Displayed app) {i : Nat} (hi : i < app.serverListModel.length) :
    Displayed (setCurrentIndex i app) := by
  by_cases hcur : app.currentIndex = i
  · rw [MainWindow.setCurrentIndex, if_pos hcur]
    exact h
  · intro _
    have hrow : app.row i = some app.serverListModel[i] := by
      rw [row_nat]
      exact List.getElem?_eq_getElem hi
    refine ⟨app.serverListModel[i], ?_, ?_⟩
    · rw [setCurrentIndex_currentIndex, (setCurrentIndex_selects _ _).row]
      exact hrow
    · rw [setCurrentIndex_stores_of_ne hcur hrow]
      exact setServer_saved _ _ _

theorem Displayed.selectLastUsed (serverName : String) : ∀ (is : List Nat) {app : App}, Displayed app →
    (∀ i ∈ is, i < app.serverListModel.length) → Displayed (selectLastUsed serverName is app)
  | [], _, h, _ => h
  | i :: is, app, h, his => by
    have hi : i < app.serverListModel.length := his i List.mem_cons_self
    have hrest : ∀ j (app' : App), Selects app app' → j ∈ is → j < app'.serverListModel.length := by
      intro j app' hsel hj
      rw [hsel.serverListModel]
      exact his j (List.mem_cons_of_mem _ hj)
    rw [MainWindow.selectLastUsed]
    split
    · exact (h.setCurrentIndex hi).selectLastUsed serverName is
        fun j hj => hrest j _ (setCurrentIndex_selects _ _) hj
    · -- the other branch assigns 0, a row since `i` is one
      have hzero : 0 < app.serverListModel.length := by omega
      exact (h.setCurrentIndex hzero).selectLastUsed serverName is
        fun j hj => hrest j _ (setCurrentIndex_selects _ _) hj

theorem Displayed.getLastUsedServer {app : App} (h : Displayed app) : Displayed (getLastUsedServer app) := by
  unfold MainWindow.getLastUsedServer
  have hsel := h.selectLastUsed (Launcher.getLastUsedServer app.stores.settings).serverName
    (List.range app.serverListModel.length) fun i hi => List.mem_range.1 hi
  exact hsel

/-! ## The operations -/

theorem Displayed.populateServerList {app : App} (h : Displayed app) : Displayed (populateServerList app) := by
  obtain ⟨rows, _, _, happ⟩ := populateServerList_spec app
  rw [happ]
  refine Displayed.getLastUsedServer (h.extend rfl ?_ fun _ _ => rfl)
  rw [List.map_append]
  exact List.prefix_append _ _

theorem Displayed.populateServerList_iterate (n : Nat) {app : App} (h : Displayed app) :
    Displayed (MainWindow.populateServerList^[n] app) := by
  induction n with
  | zero => exact h
  | succ n ih =>
    rw [Function.iterate_succ_apply']
    exact ih.populateServerList

theorem Displayed.addToServerList {app : App} (h : Displayed app) (serverName serverIp : String) :
    Displayed (addToServerList serverName serverIp app) := by
  obtain ⟨row, _, _, happ⟩ := addToServerList_spec serverName serverIp app
  have hext : Displayed { app with
      stores := { app.stores with settings := addLocalServer (serverObj serverName serverIp) app.stores.settings }
      serverListModel := app.serverListModel ++ [row] } := by
    refine h.extend rfl ?_ ?_
    · rw [List.map_append]
      exact List.prefix_append _ _
    · rintro l (rfl | rfl | rfl)
      · exact addLocalServer_lookup _ _ _ (by simp [localServers])
      · exact addLocalServer_lookup _ _ _ (by simp [localServers])
      · rfl
  have hlen : app.serverListModel.length < (app.serverListModel ++ [row]).length := by
    rw [List.length_append, List.length_singleton]
    omega
  rw [happ]
  exact hext.setCurrentIndex hlen

theorem Displayed.serversReply {app : App} (h : Displayed app) (jsonResponse : Document) :
    Displayed (handleServersReply jsonResponse app) := by
  unfold handleServersReply
  refine Displayed.populateServerList_iterate _ (h.extend rfl List.prefix_rfl ?_)
  rintro l (rfl | rfl | rfl)
  · exact saveServersReply_lookup _ _ _ (by simp [communityServers])
  · exact saveServersReply_lookup _ _ _ (by simp [communityServers])
  · rfl

theorem displayed_step {app app' : App} {e : Event} (h : app.step e = some app') (hd : Displayed app) :
    Displayed app' := by
  cases step_handles h with
  | startUpSetup => exact hd
  | startUpFetches x y f => exact hd
  | fetchServerList => exact hd
  | populateServerList => exact hd.populateServerList
  | getLastUsedServer => exact hd.getLastUsedServer
  | addToServerList serverName serverIp => exact hd.addToServerList serverName serverIp
  | select hi => exact hd.setCurrentIndex hi
  | serversReply jsonResponse hpos =>
    have hreply : Displayed { app with serversInFlight := app.serversInFlight - 1 } := hd
    exact hreply.serversReply jsonResponse
  | serversReplyError hpos => exact hd
  | serverStatus status server uptime =>
    exact hd.reports (handleServerStatusWorker_reports status server uptime app)

/-- **The displayed server is the stored one** in every state of every run, whatever the stores hold at
    the start. -/
theorem displayed_always (stores : Stores) (events : List Event) :
    Runs.AllStates App.step Displayed (App.init stores) events := by
  refine Runs.allStates_of_inv displayed_step ?_
  intro hpos
  have hnone : (App.init stores).currentIndex = -1 := rfl
  omega

/-! ## A row is selected as soon as there is one -/

/-- Without it `refresh_status_text` would end in an error, and the handler that called it with it. -/
def Selected (app : App) : Prop := app.serverListModel ≠ [] → (app.row app.currentIndex).isSome

theorem setCurrentIndex_selected {app : App} {i : Nat} (hi : i < app.serverListModel.length) :
    Selected (setCurrentIndex i app) := by
  intro _
  rw [setCurrentIndex_currentIndex, (setCurrentIndex_selects _ _).row, row_nat]
  simpa using hi

theorem selectLastUsed_selected (serverName : String) : ∀ (is : List Nat) {app : App}, is ≠ [] →
    (∀ i ∈ is, i < app.serverListModel.length) → Selected (selectLastUsed serverName is app)
  | [], _, h, _ => absurd rfl h
  | i :: is, app, _, his => by
    have hi : i < app.serverListModel.length := his i List.mem_cons_self
    have hzero : 0 < app.serverListModel.length := by omega
    have hturn : ∀ j, j < app.serverListModel.length →
        Selected (selectLastUsed serverName is (setCurrentIndex (j : Nat) app)) := by
      intro j hj
      cases is with
      | nil => exact setCurrentIndex_selected hj
      | cons k is =>
        apply selectLastUsed_selected serverName (k :: is) (List.cons_ne_nil _ _)
        intro x hx
        rw [(setCurrentIndex_selects _ _).serverListModel]
        exact his x (List.mem_cons_of_mem _ hx)
    rw [selectLastUsed]
    split
    · exact hturn i hi
    · exact hturn 0 hzero

/-- The loop of `get_last_used_server` leaves a row selected whenever there is one. -/
theorem getLastUsedServer_selected (app : App) : Selected (MainWindow.getLastUsedServer app) := by
  unfold MainWindow.getLastUsedServer
  by_cases hrows : app.serverListModel = []
  · intro hne
    have hsel := selectLastUsed_selects (Launcher.getLastUsedServer app.stores.settings).serverName
      (List.range app.serverListModel.length) app
    exact absurd (hsel.serverListModel.trans hrows) hne
  · refine selectLastUsed_selected _ (List.range app.serverListModel.length) ?_ fun i hi => List.mem_range.1 hi
    intro hrange
    exact hrows (List.length_eq_zero_iff.1 (List.range_eq_nil.1 hrange))

theorem populateServerList_selected (app : App) : Selected (populateServerList app) := by
  obtain ⟨rows, _, _, happ⟩ := populateServerList_spec app
  rw [happ]
  exact getLastUsedServer_selected _

theorem Selected.of_length {app app' : App} (h : Selected app) (hi : app'.currentIndex = app.currentIndex)
    (hlen : app'.serverListModel.length = app.serverListModel.length) : Selected app' := by
  intro hne
  have hne' : app.serverListModel ≠ [] := by
    intro hnil
    rw [hnil] at hlen
    exact hne (List.length_eq_zero_iff.1 hlen)
  have hrow := h hne'
  unfold App.row at hrow ⊢
  rw [hi]
  split at hrow
  · cases hrow
  · rename_i hidx
    rw [if_neg hidx]
    simp only [isSome_getElem?] at hrow ⊢
    omega

theorem Reports.selected {app app' : App} (hr : Reports app app') (h : Selected app) : Selected app' := by
  have hlen := congrArg List.length hr.records
  rw [List.length_map, List.length_map] at hlen
  exact h.of_length hr.currentIndex hlen

theorem selected_step {app app' : App} {e : Event} (h : app.step e = some app') (hs : Selected app) :
    Selected app' := by
  cases step_handles h with
  | startUpSetup => exact hs
  | startUpFetches x y f => exact hs
  | fetchServerList => exact hs
  | populateServerList => exact populateServerList_selected app
  | getLastUsedServer => exact getLastUsedServer_selected app
  | addToServerList serverName serverIp =>
    obtain ⟨row, _, _, happ⟩ := addToServerList_spec serverName serverIp app
    have hlen : app.serverListModel.length < (app.serverListModel ++ [row]).length := by
      rw [List.length_append, List.length_singleton]
      omega
    rw [happ]
    exact setCurrentIndex_selected hlen
  | select hi => exact setCurrentIndex_selected hi
  | serversReply jsonResponse hpos =>
    unfold handleServersReply
    cases app.fetchServerListFinished with
    | zero => exact hs
    | succ n =>
      rw [Function.iterate_succ_apply']
      exact populateServerList_selected _
  | serversReplyError hpos => exact hs
  | serverStatus status server uptime =>
    exact (handleServerStatusWorker_reports status server uptime app).selected hs

end SegsLauncher
