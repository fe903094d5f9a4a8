import SegsLauncher.MainWindow
/-!
# What the handlers of the main window can change

Every handler is a row change, a save or a counter, followed by selections. `Selects` says what a
selection leaves alone; each handler gets one lemma in its terms, and the proofs about runs use
these lemmas only.
-/
namespace SegsLauncher

open MainWindow

/-- A selection changes the selected server in the stores, the index and the texts about the row. -/
structure Selects (app app' : App) : Prop where
  serverListModel : app'.serverListModel = app.serverListModel
  mServerName : app'.mServerName = app.mServerName
  mServerStatus : app'.mServerStatus = app.mServerStatus
  mServerUptime : app'.mServerUptime = app.mServerUptime
  fetchServerListFinished : app'.fetchServerListFinished = app.fetchServerListFinished
  serverStatusReady : app'.serverStatusReady = app.serverStatusReady
  serversInFlight : app'.serversInFlight = app.serversInFlight
  getServerStatus : app'.getServerStatus = app.getServerStatus
  stores : ∀ l ∉ Region.selectedServer.locations, app'.stores.get l = app.stores.get l

theorem Selects.refl (app : App) : Selects app app := ⟨rfl, rfl, rfl, rfl, rfl, rfl, rfl, rfl, fun _ _ => rfl⟩

theorem Selects.trans {a b c : App} (h : Selects a b) (h' : Selects b c) : Selects a c where
  serverListModel := h'.serverListModel.trans h.serverListModel
  mServerName := h'.mServerName.trans h.mServerName
  mServerStatus := h'.mServerStatus.trans h.mServerStatus
  mServerUptime := h'.mServerUptime.trans h.mServerUptime
  fetchServerListFinished := h'.fetchServerListFinished.trans h.fetchServerListFinished
  serverStatusReady := h'.serverStatusReady.trans h.serverStatusReady
  serversInFlight := h'.serversInFlight.trans h.serversInFlight
  getServerStatus := h'.getServerStatus.trans h.getServerStatus
  stores := fun l hl => (h'.stores l hl).trans (h.stores l hl)

theorem Selects.row {app app' : App} (h : Selects app app') (i : Int) : app'.row i = app.row i := by
  rw [App.row, App.row, h.serverListModel]

theorem Selects.startWorker {app app' : App} (h : Selects app app') :
    Selects (startServerStatusWorker app) (startServerStatusWorker app') :=
  { h with getServerStatus := congrArg (· + 1) h.getServerStatus }

/-! ## Selections -/

theorem row_nat (app : App) (i : Nat) : app.row i = app.serverListModel[i]? := by
  simp [App.row]

theorem refreshStatusText_spec (app : App) : ∀ app', refreshStatusText app = some app' →
    Selects app app' ∧ app'.currentIndex = app.currentIndex ∧ app'.stores = app.stores := by
  intro app' h
  unfold refreshStatusText at h
  split at h
  · cases h
  · rename_i row _
    simp only [Option.some.injEq] at h
    subst h
    split <;> exact ⟨⟨rfl, rfl, rfl, rfl, rfl, rfl, rfl, rfl, fun _ _ => rfl⟩, rfl, rfl⟩

theorem refreshStatusText_isSome (app : App) :
    (refreshStatusText app).isSome = (app.row app.currentIndex).isSome := by
  unfold refreshStatusText
  split <;> rename_i h <;> simp [h]

/-- The handler of an index change: nothing on an index without a row, else the row's server is saved. -/
theorem onCurrentIndexChanged_spec (app : App) :
    Selects app (onCurrentIndexChanged app) ∧ (onCurrentIndexChanged app).currentIndex = app.currentIndex ∧
      (onCurrentIndexChanged app).stores =
        match app.row app.currentIndex with
        | none => app.stores
        | some row => Launcher.setServer (serverObj row.serverName row.serverIp) app.stores := by
  unfold onCurrentIndexChanged setServer
  cases hrow : app.row app.currentIndex with
  | none => exact ⟨.refl app, rfl, rfl⟩
  | some row =>
    have hset : Selects app
        { app with stores := Launcher.setServer (serverObj row.serverName row.serverIp) app.stores } :=
      ⟨rfl, rfl, rfl, rfl, rfl, rfl, rfl, rfl, fun l hl => setServer_get _ _ l hl⟩
    simp only
    split
    · exact ⟨hset, rfl, rfl⟩
    · rename_i app' happ'
      obtain ⟨hsel, hidx, hst⟩ := refreshStatusText_spec _ app' happ'
      split
      · exact ⟨hset.trans hsel, hidx, hst⟩
      · refine ⟨(hset.trans hsel).trans ?_, hidx, hst⟩
        exact ⟨rfl, rfl, rfl, rfl, rfl, rfl, rfl, rfl, fun _ _ => rfl⟩

theorem setCurrentIndex_selects (i : Int) (app : App) : Selects app (setCurrentIndex i app) := by
  unfold setCurrentIndex
  split
  · exact .refl app
  · have h : Selects app { app with currentIndex := i } :=
      ⟨rfl, rfl, rfl, rfl, rfl, rfl, rfl, rfl, fun _ _ => rfl⟩
    exact h.trans (onCurrentIndexChanged_spec _).1

@[simp] theorem setCurrentIndex_currentIndex (i : Int) (app : App) : (setCurrentIndex i app).currentIndex = i := by
  unfold setCurrentIndex
  split
  · assumption
  · exact (onCurrentIndexChanged_spec _).2.1

theorem setCurrentIndex_stores_of_ne {i : Int} {app : App} {row : Row} (hi : app.currentIndex ≠ i)
    (hrow : app.row i = some row) :
    (setCurrentIndex i app).stores = Launcher.setServer (serverObj row.serverName row.serverIp) app.stores := by
  have h := (onCurrentIndexChanged_spec { app with currentIndex := i }).2.2
  have hrow' : ({ app with currentIndex := i } : App).row i = some row := hrow
  rw [hrow'] at h
  rw [setCurrentIndex, if_neg hi]
  exact h

theorem selectLastUsed_selects (serverName : String) : ∀ (is : List Nat) (app : App),
    Selects app (selectLastUsed serverName is app)
  | [], app => .refl app
  | i :: is, app => by
    rw [selectLastUsed]
    split
    · exact (setCurrentIndex_selects _ _).trans (selectLastUsed_selects serverName is _)
    · exact (setCurrentIndex_selects _ _).trans (selectLastUsed_selects serverName is _)

theorem getLastUsedServer_selects (app : App) : Selects app (getLastUsedServer app) := by
  have h := selectLastUsed_selects (Launcher.getLastUsedServer app.stores.settings).serverName
    (List.range app.serverListModel.length) app
  exact { h with }

/-! ## Rows -/

/-- `populate_server_list`'s loop appends one row for each record, without a status. -/
theorem appendServers_spec : ∀ (servers : List ServerRecord) (temp type : Option String) (app : App),
    ∃ rows : List Row, rows.map Row.record = servers ∧ (∀ row ∈ rows, row.serverStatus = none) ∧
      appendServers servers temp type app = { app with serverListModel := app.serverListModel ++ rows }
  | [], _, _, app => ⟨[], rfl, by simp, by simp [appendServers]⟩
  | server :: servers, temp, type, app => by
    simp only [appendServers]
    generalize (if server.serverType = "C" then _ else _ : Option String × Option String) = tt
    let row : Row :=
      { displayText := tt.1, displayTextType := tt.2, serverType := server.serverType,
        serverName := server.serverName, serverIp := server.serverIp,
        comboBoxServerSelectSvg := "Resources/Icons/refresh-cw.svg" }
    obtain ⟨rows, hrec, hnone, happ⟩ := appendServers_spec servers tt.1 tt.2
      { app with serverListModel := app.serverListModel ++ [row] }
    refine ⟨row :: rows, ?_, ?_, happ.trans ?_⟩
    · rw [List.map_cons, hrec]; rfl
    · intro r hr
      rcases List.mem_cons.1 hr with rfl | hr
      · rfl
      · exact hnone r hr
    · simp only [List.append_assoc, List.singleton_append]

/-- `populate_server_list`: the saved records are appended, one more `get_server_status` is connected and
one more sweep requested; then a row is selected. -/
theorem populateServerList_spec (app : App) :
    ∃ rows : List Row, rows.map Row.record = Launcher.getServerList app.stores.settings ∧
      (∀ row ∈ rows, row.serverStatus = none) ∧
      populateServerList app = getLastUsedServer
        { app with serverListModel := app.serverListModel ++ rows
                   serverStatusReady := app.serverStatusReady + 1
                   getServerStatus := app.getServerStatus + 1 } := by
  obtain ⟨rows, hrec, hnone, happ⟩ :=
    appendServers_spec (Launcher.getServerList app.stores.settings) none none app
  refine ⟨rows, hrec, hnone, ?_⟩
  simp only [populateServerList, happ, startServerStatusWorker]

/-- `add_to_server_list`: the server is saved, one row is appended and selected, a sweep requested. -/
theorem addToServerList_spec (serverName serverIp : String) (app : App) :
    ∃ row : Row, row.record = ⟨serverName, serverIp, "L"⟩ ∧ row.serverStatus = none ∧
      addToServerList serverName serverIp app = startServerStatusWorker (setCurrentIndex app.serverListModel.length
        { app with
          stores := { app.stores with
            settings := Launcher.addLocalServer (serverObj serverName serverIp) app.stores.settings }
          serverListModel := app.serverListModel ++ [row] }) := by
  let row : Row :=
    { displayText := some (serverName ++ " (" ++ serverIp ++ ") "), displayTextType := some "Custom",
      serverType := "L", serverName := serverName, serverIp := serverIp,
      comboBoxServerSelectSvg := "Resources/Icons/refresh-cw.svg" }
  have hlen (rows : List Row) : (((rows ++ [row]).length : Int) - 1) = rows.length := by
    simp only [List.length_append, List.length_singleton]; omega
  refine ⟨row, rfl, rfl, ?_⟩
  rw [← hlen app.serverListModel]
  rfl

@[simp] theorem statusRow_record (s : ServerStatus) (row : Row) : (statusRow s row).record = row.record := by
  unfold statusRow
  split_ifs <;> rfl

/-- A status result leaves the records, the stores, the index, the connections and the requests alone. -/
structure Reports (app app' : App) : Prop where
  records : app'.serverListModel.map Row.record = app.serverListModel.map Row.record
  stores : app'.stores = app.stores
  currentIndex : app'.currentIndex = app.currentIndex
  fetchServerListFinished : app'.fetchServerListFinished = app.fetchServerListFinished
  serverStatusReady : app'.serverStatusReady = app.serverStatusReady
  serversInFlight : app'.serversInFlight = app.serversInFlight
  getServerStatus : app'.getServerStatus = app.getServerStatus

theorem Reports.refl (app : App) : Reports app app := ⟨rfl, rfl, rfl, rfl, rfl, rfl, rfl⟩

theorem Reports.trans {a b c : App} (h : Reports a b) (h' : Reports b c) : Reports a c :=
  ⟨h'.records.trans h.records, h'.stores.trans h.stores, h'.currentIndex.trans h.currentIndex,
   h'.fetchServerListFinished.trans h.fetchServerListFinished, h'.serverStatusReady.trans h.serverStatusReady,
   h'.serversInFlight.trans h.serversInFlight, h'.getServerStatus.trans h.getServerStatus⟩

theorem map_record_modify (s : ServerStatus) (i : Nat) (rows : List Row) :
    (rows.modify i (statusRow s)).map Row.record = rows.map Row.record := by
  apply List.ext_getElem?
  intro k
  rw [List.getElem?_map, List.getElem?_map, List.getElem?_modify]
  by_cases hk : i = k
  · subst hk; cases rows[i]? <;> simp
  · simp [hk]

theorem updateRows_reports (s : ServerStatus) : ∀ (is : List Nat) (app : App), Reports app (updateRows s is app)
  | [], app => .refl app
  | i :: is, app => by
    have hset : Reports app { app with serverListModel := app.serverListModel.modify i (statusRow s) } :=
      ⟨map_record_modify s i _, rfl, rfl, rfl, rfl, rfl, rfl⟩
    simp only [updateRows]
    split
    · exact hset
    · rename_i app' happ'
      obtain ⟨hsel, hidx, hst⟩ := refreshStatusText_spec _ app' happ'
      have href : Reports { app with serverListModel := app.serverListModel.modify i (statusRow s) } app' :=
        ⟨by rw [hsel.serverListModel], hst, hidx, hsel.fetchServerListFinished, hsel.serverStatusReady,
          hsel.serversInFlight, hsel.getServerStatus⟩
      exact (hset.trans href).trans (updateRows_reports s is app')

theorem getServerStatus_reports (app : App) : Reports app (getServerStatus app) := updateRows_reports _ _ _

theorem getServerStatus_iterate_reports (n : Nat) (app : App) : Reports app (getServerStatus^[n] app) := by
  induction n generalizing app with
  | zero => exact .refl app
  | succ n ih =>
    rw [Function.iterate_succ_apply]
    exact (getServerStatus_reports app).trans (ih _)

theorem handleServerStatusWorker_reports (status : Bool) (server uptime : String) (app : App) :
    Reports app (Launcher.handleServerStatusWorker status server uptime app) := by
  unfold Launcher.handleServerStatusWorker
  refine Reports.trans ?_ (getServerStatus_iterate_reports _ _)
  split <;> exact ⟨rfl, rfl, rfl, rfl, rfl, rfl, rfl⟩

/-- `start_up` shows the game settings and, when the setup is complete, fetches the server list. -/
theorem startUp_cases (app : App) :
    startUp app = app ∨ ∃ x y f, startUp app = fetchServerList
      { app with textFieldScreenX := x, textFieldScreenY := y, checkBoxFullscreen := f } := by
  unfold startUp getLauncherSettings
  simp only
  split
  · exact Or.inr ⟨_, _, _, rfl⟩
  · exact Or.inl rfl

/-! ## Events -/

/-- What an event can do, with the guard it needs. -/
inductive Handles (app : App) : Event → App → Prop
  | startUpSetup : Handles app .startUp app
  | startUpFetches (x y : String) (f : Bool) : Handles app .startUp
      (fetchServerList { app with textFieldScreenX := x, textFieldScreenY := y, checkBoxFullscreen := f })
  | fetchServerList : Handles app .fetchServerList (fetchServerList app)
  | populateServerList : Handles app .populateServerList (populateServerList app)
  | getLastUsedServer : Handles app .getLastUsedServer (getLastUsedServer app)
  | addToServerList (serverName serverIp : String) :
      Handles app (.addToServerList serverName serverIp) (addToServerList serverName serverIp app)
  | select {i : Nat} (hi : i < app.serverListModel.length) : Handles app (.select i) (setCurrentIndex i app)
  | serversReply (jsonResponse : Document) (hpos : 0 < app.serversInFlight) :
      Handles app (.serversReply jsonResponse)
        (Launcher.handleServersReply jsonResponse { app with serversInFlight := app.serversInFlight - 1 })
  | serversReplyError (hpos : 0 < app.serversInFlight) :
      Handles app .serversReplyError { app with serversInFlight := app.serversInFlight - 1 }
  | serverStatus (status : Bool) (server uptime : String) :
      Handles app (.serverStatus status server uptime) (Launcher.handleServerStatusWorker status server uptime app)

theorem step_handles {app app' : App} {e : Event} (h : app.step e = some app') : Handles app e app' := by
  cases e with
  | startUp =>
    obtain rfl := Option.some.inj h
    rcases startUp_cases app with hs | ⟨x, y, f, hs⟩
    · rw [hs]
      exact .startUpSetup
    · rw [hs]
      exact .startUpFetches x y f
  | fetchServerList =>
    obtain rfl := Option.some.inj h
    exact .fetchServerList
  | populateServerList =>
    obtain rfl := Option.some.inj h
    exact .populateServerList
  | getLastUsedServer =>
    obtain rfl := Option.some.inj h
    exact .getLastUsedServer
  | addToServerList serverName serverIp =>
    obtain rfl := Option.some.inj h
    exact .addToServerList serverName serverIp
  | serverStatus status server uptime =>
    obtain rfl := Option.some.inj h
    exact .serverStatus status server uptime
  | select i =>
    simp only [App.step, Option.ite_none_right_eq_some, Option.some.injEq] at h
    obtain ⟨hi, rfl⟩ := h
    exact .select hi
  | serversReply jsonResponse =>
    simp only [App.step, Option.ite_none_right_eq_some, Option.some.injEq] at h
    obtain ⟨hpos, rfl⟩ := h
    exact .serversReply jsonResponse hpos
  | serversReplyError =>
    simp only [App.step, Option.ite_none_right_eq_some, Option.some.injEq] at h
    obtain ⟨hpos, rfl⟩ := h
    exact .serversReplyError hpos

/-! ## What an event leaves in the stores -/

theorem populateServerList_get (app : App) {l : Location} (hl : l ∉ Region.selectedServer.locations) :
    (populateServerList app).stores.get l = app.stores.get l := by
  obtain ⟨rows, _, _, happ⟩ := populateServerList_spec app
  rw [happ]
  exact (getLastUsedServer_selects _).stores l hl

theorem populateServerList_iterate_get (n : Nat) (app : App) {l : Location}
    (hl : l ∉ Region.selectedServer.locations) : (populateServerList^[n] app).stores.get l = app.stores.get l := by
  induction n generalizing app with
  | zero => rfl
  | succ n ih =>
    rw [Function.iterate_succ_apply, ih]
    exact populateServerList_get app hl

/-- The handlers write the saved servers and the selected one, and no other location. -/
theorem step_get {app app' : App} {e : Event} (h : app.step e = some app') {l : Location}
    (hcommunity : l ∉ Region.communityServers.locations) (hlocal : l ∉ Region.localServers.locations)
    (hselected : l ∉ Region.selectedServer.locations) : app'.stores.get l = app.stores.get l := by
  cases step_handles h with
  | startUpSetup | startUpFetches | fetchServerList => rfl
  | serversReplyError hpos => rfl
  | populateServerList => exact populateServerList_get app hselected
  | getLastUsedServer => exact (getLastUsedServer_selects app).stores l hselected
  | select hi => exact (setCurrentIndex_selects _ app).stores l hselected
  | serverStatus status server uptime =>
    rw [(handleServerStatusWorker_reports status server uptime app).stores]
  | addToServerList serverName serverIp =>
    obtain ⟨row, _, _, happ⟩ := addToServerList_spec serverName serverIp app
    rw [happ]
    refine ((setCurrentIndex_selects _ _).stores l hselected).trans ?_
    cases l with
    | settings key => exact addLocalServer_lookup _ _ _ (not_settingsBelow hlocal)
    | registry key => rfl
  | serversReply jsonResponse hpos =>
    refine (populateServerList_iterate_get _ _ hselected).trans ?_
    cases l with
    | settings key => exact saveServersReply_lookup _ _ _ (not_settingsBelow hcommunity)
    | registry key => rfl

end SegsLauncher
