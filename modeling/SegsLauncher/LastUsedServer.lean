import SegsLauncher.Selection
/-!
# Restarting with the last used server

`get_last_used_server` looks among the rows for the name that was saved ("set ComboBox to that entry").
Its loop does not stop at a match: it assigns the index on every row, `0` on a row of another name, and the
handler of every change saves the server it moves to. So the last row decides, and the saved name can be
lost on the way.

| here | there |
| --- | --- |
| `savedName`  | `backend_launcher.get_last_used_server()["server_name"]` |
| `Named`      | `server_list_model.get(i).server_name === server_settings_obj["server_name"]` |
| `Restores`   | the comment above `get_last_used_server` (`MainWindow.qml:1232`) |
-/
namespace SegsLauncher

open Launcher MainWindow

/-- The name of the last used server, as the stores have it. -/
def savedName (app : App) : String := (Launcher.getLastUsedServer app.stores.settings).serverName

/-- There is a row at `i`, and it has the name. -/
abbrev Named (serverName : String) (app : App) (i : Int) : Prop :=
  (app.row i).map Row.serverName = some serverName

/-- The saved server is displayed when the loop ends and is still the saved one; when no row has the saved
    name, the first row is displayed. -/
def Restores (app : App) : Prop :=
  let app' := MainWindow.getLastUsedServer app
  ((∃ row ∈ app.serverListModel, row.serverName = savedName app) →
    Named (savedName app) app' app'.currentIndex ∧ savedName app' = savedName app) ∧
  ((∀ row ∈ app.serverListModel, row.serverName ≠ savedName app) → app'.currentIndex = 0)

/-- No row has the saved name, or the first or the last row has it. -/
def FoundAtAnEnd (app : App) : Prop :=
  (∀ row ∈ app.serverListModel, row.serverName ≠ savedName app) ∨
    app.serverListModel.head?.map Row.serverName = some (savedName app) ∨
    app.serverListModel.getLast?.map Row.serverName = some (savedName app)

/-! ## The saved name -/

theorem getLastUsedServer_serverName (st : Store) :
    (Launcher.getLastUsedServer st).serverName = fieldAt st [seg "ServerConfig"] (seg "LastServerName") := by
  rw [Launcher.getLastUsedServer,
    QSettings.value_group _ "ServerConfig" "LastServerName" _ (by decide) (by decide)]
  rfl

theorem SavedServer.savedName {app : App} {serverName serverIp : String}
    (h : SavedServer app.stores serverName serverIp) : savedName app = serverName := by
  rw [SegsLauncher.savedName, getLastUsedServer_serverName, fieldAt]
  have hname : app.stores.settings.lookup ([seg "ServerConfig"] ++ [seg "LastServerName"]) =
      some (.string serverName) := h.1
  rw [hname]
  rfl

/-! ## One assignment

An assignment that changes the index saves the name of the row it moves to, one that does not saves
nothing: the saved name is the one the loop started from until a row's name replaces it. -/

def Follows (serverName : String) (app : App) : Prop :=
  savedName app = serverName ∨ Named (savedName app) app app.currentIndex

theorem Follows.setCurrentIndex {serverName : String} {app : App} (h : Follows serverName app) {i : Nat}
    (hi : i < app.serverListModel.length) : Follows serverName (setCurrentIndex i app) := by
  by_cases hcur : app.currentIndex = i
  · rw [MainWindow.setCurrentIndex, if_pos hcur]
    exact h
  · right
    have hrow : app.row i = some app.serverListModel[i] := by
      rw [row_nat]
      exact List.getElem?_eq_getElem hi
    have hsaved : SavedServer (MainWindow.setCurrentIndex i app).stores app.serverListModel[i].serverName
        app.serverListModel[i].serverIp := by
      rw [setCurrentIndex_stores_of_ne hcur hrow]
      exact setServer_saved _ _ _
    rw [Named, setCurrentIndex_currentIndex, (setCurrentIndex_selects _ _).row, hrow, hsaved.savedName]
    rfl

theorem Follows.selectLastUsed {serverName : String} (name : String) : ∀ (is : List Nat) {app : App},
    Follows serverName app → (∀ i ∈ is, i < app.serverListModel.length) →
      Follows serverName (selectLastUsed name is app)
  | [], _, h, _ => h
  | i :: is, app, h, his => by
    have hi : i < app.serverListModel.length := his i List.mem_cons_self
    have hzero : 0 < app.serverListModel.length := by omega
    have hrest : ∀ k : Int, ∀ j ∈ is, j < (MainWindow.setCurrentIndex k app).serverListModel.length := by
      intro k j hj
      rw [(setCurrentIndex_selects _ _).serverListModel]
      exact his j (List.mem_cons_of_mem _ hj)
    rw [MainWindow.selectLastUsed]
    split
    · exact (h.setCurrentIndex hi).selectLastUsed name is (hrest _)
    · exact (h.setCurrentIndex hzero).selectLastUsed name is (hrest _)

/-! ## The whole loop -/

theorem selectLastUsed_append (serverName : String) : ∀ (is js : List Nat) (app : App),
    selectLastUsed serverName (is ++ js) app = selectLastUsed serverName js (selectLastUsed serverName is app)
  | [], _, _ => rfl
  | _ :: is, js, _ => selectLastUsed_append serverName is js _

/-- The last turn of the loop decides where the index ends. -/
theorem getLastUsedServer_currentIndex {app : App} (hrows : app.serverListModel ≠ []) :
    (MainWindow.getLastUsedServer app).currentIndex =
      if app.serverListModel.getLast?.map Row.serverName = some (savedName app) then
        (app.serverListModel.length : Int) - 1 else 0 := by
  obtain ⟨n, hn⟩ : ∃ n, app.serverListModel.length = n + 1 :=
    Nat.exists_eq_succ_of_ne_zero fun h => hrows (List.length_eq_zero_iff.1 h)
  have hlast : (selectLastUsed (savedName app) (List.range n) app).row n = app.serverListModel.getLast? := by
    rw [(selectLastUsed_selects _ _ _).row, row_nat, List.getLast?_eq_getElem?, hn]
    rfl
  have hindex : (MainWindow.getLastUsedServer app).currentIndex =
      (selectLastUsed (savedName app) (List.range (n + 1)) app).currentIndex := by
    rw [← hn]
    rfl
  rw [hindex, List.range_succ, selectLastUsed_append, selectLastUsed, hlast, selectLastUsed]
  split
  · rw [setCurrentIndex_currentIndex]
    omega
  · rw [setCurrentIndex_currentIndex]

theorem getLastUsedServer_follows (app : App) : Follows (savedName app) (MainWindow.getLastUsedServer app) := by
  have hstart : Follows (savedName app) app := Or.inl rfl
  have h := hstart.selectLastUsed (savedName app) (List.range app.serverListModel.length)
    fun i hi => List.mem_range.1 hi
  exact h

/-- A loop that ends on a row with the saved name has kept the saved name. -/
theorem Follows.savedName_eq {serverName : String} {app : App} (h : Follows serverName app)
    (hnamed : Named serverName app app.currentIndex) : savedName app = serverName := by
  rcases h with h | h
  · exact h
  · exact Option.some.inj (h.symm.trans hnamed)

theorem named_zero {serverName : String} {app : App} :
    Named serverName app 0 ↔ app.serverListModel.head?.map Row.serverName = some serverName := by
  rw [Named, List.head?_eq_getElem?]
  exact iff_of_eq (congrArg (fun r : Option Row => r.map Row.serverName = some serverName) (row_nat app 0))

theorem named_last {serverName : String} {app : App} (hrows : app.serverListModel ≠ []) :
    Named serverName app ((app.serverListModel.length : Int) - 1) ↔
      app.serverListModel.getLast?.map Row.serverName = some serverName := by
  have hlen : 0 < app.serverListModel.length := List.length_pos_of_ne_nil hrows
  have hcast : (app.serverListModel.length : Int) - 1 = ((app.serverListModel.length - 1 : Nat) : Int) := by omega
  rw [Named, hcast, row_nat, List.getLast?_eq_getElem?]

/-- The displayed row has the saved name exactly when the first or the last row has it. -/
theorem getLastUsedServer_named_iff {app : App} (hrows : app.serverListModel ≠ []) :
    Named (savedName app) (MainWindow.getLastUsedServer app) (MainWindow.getLastUsedServer app).currentIndex ↔
      app.serverListModel.head?.map Row.serverName = some (savedName app) ∨
        app.serverListModel.getLast?.map Row.serverName = some (savedName app) := by
  have hrow := (getLastUsedServer_selects app).row (MainWindow.getLastUsedServer app).currentIndex
  rw [Named, hrow, getLastUsedServer_currentIndex hrows]
  split
  · rename_i hlast
    exact iff_of_true ((named_last hrows).2 hlast) (Or.inr hlast)
  · rename_i hlast
    exact named_zero.trans ⟨Or.inl, fun h => h.resolve_right hlast⟩

/-- **A restart keeps the last used server** exactly when no row has the saved name or one at an end of the
    list has it. -/
theorem restores_iff (app : App) (hrows : app.serverListModel ≠ []) : Restores app ↔ FoundAtAnEnd app := by
  have hnamed := getLastUsedServer_named_iff hrows
  by_cases hnone : ∀ row ∈ app.serverListModel, row.serverName ≠ savedName app
  · -- no match: the last turn, as every turn, assigns 0
    refine iff_of_true ⟨?_, ?_⟩ (Or.inl hnone)
    · rintro ⟨row, hrow, heq⟩
      exact absurd heq (hnone row hrow)
    · intro _
      rw [getLastUsedServer_currentIndex hrows, if_neg]
      intro hlast
      obtain ⟨row, hrow, heq⟩ := Option.map_eq_some_iff.1 hlast
      exact hnone row (List.mem_of_getLast? hrow) heq
  · have hsome : ∃ row ∈ app.serverListModel, row.serverName = savedName app := by
      by_contra h
      exact hnone fun row hrow heq => h ⟨row, hrow, heq⟩
    constructor
    · intro h
      exact Or.inr (hnamed.1 (h.1 hsome).1)
    · intro h
      have hat := hnamed.2 (h.resolve_left hnone)
      refine ⟨fun _ => ⟨hat, ?_⟩, fun h' => absurd h' hnone⟩
      exact (getLastUsedServer_follows app).savedName_eq hat

def serverRow (serverName serverIp : String) : Row :=
  { displayText := some (serverName ++ " (" ++ serverIp ++ ") "), displayTextType := some "Community",
    serverType := "C", serverName := serverName, serverIp := serverIp,
    comboBoxServerSelectSvg := "Resources/Icons/refresh-cw.svg" }

/-- A window with the rows `names`, over stores where `lastServerName` is saved. -/
def listing (lastServerName : String) (names : List String) : App :=
  { stores := Launcher.setServer (serverObj lastServerName "10.0.0.1") ⟨∅, ∅⟩
    serverListModel := names.map fun name => serverRow name "10.0.0.1" }

theorem listing_savedName (lastServerName : String) (names : List String) :
    savedName (listing lastServerName names) = lastServerName := by
  have hsaved : SavedServer (listing lastServerName names).stores lastServerName "10.0.0.1" :=
    setServer_saved lastServerName "10.0.0.1" ⟨∅, ∅⟩
  exact hsaved.savedName

theorem restores_iff_last : Restores (listing "B" ["A", "B"]) :=
  (restores_iff (listing "B" ["A", "B"]) (by simp [listing])).2
    (Or.inr (Or.inr (by rw [listing_savedName]; rfl)))

/-- Saved as the second of three servers, the server is lost: the loop ends on the third row, which has
    another name, and so assigns 0. -/
theorem not_restores_middle : ¬ Restores (listing "B" ["A", "B", "C"]) := by
  intro h
  have hrows : (listing "B" ["A", "B", "C"]).serverListModel ≠ [] := by simp [listing]
  have hsome : ∃ row ∈ (listing "B" ["A", "B", "C"]).serverListModel,
      row.serverName = savedName (listing "B" ["A", "B", "C"]) := by
    rw [listing_savedName]
    exact ⟨serverRow "B" "10.0.0.1", by simp [listing], rfl⟩
  have hnamed := (getLastUsedServer_named_iff hrows).1 (h.1 hsome).1
  rw [listing_savedName] at hnamed
  revert hnamed
  decide

end SegsLauncher
