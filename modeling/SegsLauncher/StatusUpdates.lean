import SegsLauncher.Lib.KeyedUpdates
import SegsLauncher.World
/-!
# Status results in any order, handled any number of times

Every result passes through the same three `Launcher` members and is then read back by each connected
`get_server_status`. What arrives in a row depends on nothing but the results for the row's name, in the
order they came.

| here | there |
| --- | --- |
| `StatusResult`    | the arguments of `handle_server_status_worker` |
| `Delivery.runs`   | how many `get_server_status` are connected to `serverStatusReady`, one for each `populate_server_list` |
| `StatusResult.told` | what `is_server_online` hands on of a result: an uptime belongs to a success only |
-/
namespace SegsLauncher

open Launcher MainWindow

structure StatusResult where
  status : Bool
  server : String
  uptime : String
deriving DecidableEq, Repr

def StatusResult.told (r : StatusResult) : String × Option String :=
  (r.server, if r.status = true then some r.uptime else none)

/-- A result with the handlers that are connected when it arrives. -/
structure Delivery where
  result : StatusResult
  runs : Nat
  connected : 0 < runs

def Delivery.handle (app : App) (d : Delivery) : App :=
  handleServerStatusWorker d.result.status d.result.server d.result.uptime { app with serverStatusReady := d.runs }

/-- The results for one name, in their order. -/
def resultsFor (serverName : String) (ds : List Delivery) : List (String × Option String) :=
  (ds.map fun d => d.result.told).filter fun t => t.1 = serverName

/-- The status object `get_server_status` sees for a result, as far as it looks at it. -/
def toldStatus (t : String × Option String) : ServerStatus := ⟨t.1, t.2.isSome, t.2⟩

/-- On a failure the shared uptime still is that of an earlier server, but no row is given it. -/
theorem statusRow_statusOf (r : StatusResult) (app : App) (row : Row) :
    statusRow (statusOf r.status r.server r.uptime app) row = statusRow (toldStatus r.told) row := by
  cases hr : r.status with
  | true => simp [statusOf, toldStatus, StatusResult.told, hr]
  | false => simp [statusOf, toldStatus, StatusResult.told, hr, statusRow]

theorem Delivery.handle_rows {app : App} (h : Selected app) (d : Delivery) :
    (d.handle app).serverListModel = app.serverListModel.map (statusRow (toldStatus d.result.told)) := by
  have hsel : Selected { app with serverStatusReady := d.runs } := h
  have hruns : d.runs ≠ 0 := by
    have := d.connected
    omega
  rw [Delivery.handle, handleServerStatusWorker_rows hsel, if_neg hruns]
  exact List.map_congr_left fun row _ => statusRow_statusOf d.result _ row

theorem Delivery.handle_selected {app : App} (h : Selected app) (d : Delivery) : Selected (d.handle app) := by
  have hsel : Selected { app with serverStatusReady := d.runs } := h
  exact (handleServerStatusWorker_reports _ _ _ _).selected hsel

/-- Each result updates all rows, once. -/
theorem foldl_handle_rows (ds : List Delivery) {app : App} (h : Selected app) :
    (ds.foldl Delivery.handle app).serverListModel =
      (ds.map fun d => d.result.told).foldl (fun rows t => rows.map (statusRow (toldStatus t)))
        app.serverListModel := by
  induction ds generalizing app with
  | nil => rfl
  | cons d ds ih =>
    rw [List.foldl_cons, ih (d.handle_selected h), d.handle_rows h]
    rfl

/-- A result finds its rows by their name and leaves the name. -/
theorem keyed_statusRow :
    KeyedUpdates.Keyed Prod.fst Row.serverName (fun t : String × Option String => statusRow (toldStatus t)) where
  rowKey_apply := fun t row => congrArg ServerRecord.serverName (statusRow_record (toldStatus t) row)
  apply_of_ne := by
    intro t row hne
    apply statusRow_of_not_writes
    intro hw
    simp only [writes, decide_eq_true_eq] at hw
    exact hne hw.1

/-- **Results of different servers commute, and handlers may repeat**: two sequences that agree on the
    results for each name leave the same rows, whatever the `Launcher` members held and however many
    handlers were connected at each result. -/
theorem rows_eq_of_same_results {app app' : App} (hsel : Selected app) (hsel' : Selected app')
    (hrows : app.serverListModel = app'.serverListModel) {ds ds' : List Delivery}
    (hsame : ∀ serverName, resultsFor serverName ds = resultsFor serverName ds') :
    (ds.foldl Delivery.handle app).serverListModel = (ds'.foldl Delivery.handle app').serverListModel := by
  rw [foldl_handle_rows ds hsel, foldl_handle_rows ds' hsel', hrows]
  exact keyed_statusRow.foldl_rows_congr hsame _

def aUp : StatusResult := ⟨true, "A", "3"⟩
def bDown : StatusResult := ⟨false, "B", noUptime⟩

/-- Two rows, the first one selected. -/
def twoRows : App :=
  { stores := ⟨∅, ∅⟩
    currentIndex := 0
    serverListModel := ["A", "B"].map fun serverName =>
      { displayText := none, displayTextType := none, serverType := "C", serverName := serverName,
        serverIp := "10.0.0.1", comboBoxServerSelectSvg := "Resources/Icons/refresh-cw.svg" } }

theorem rows_eq_swapped :
    ([⟨aUp, 1, by decide⟩, ⟨bDown, 2, by decide⟩].foldl Delivery.handle twoRows).serverListModel =
      ([⟨bDown, 3, by decide⟩, ⟨aUp, 1, by decide⟩].foldl Delivery.handle twoRows).serverListModel := by
  have hsel : Selected twoRows := fun _ => rfl
  refine rows_eq_of_same_results hsel hsel rfl ?_
  intro serverName
  by_cases ha : "A" = serverName
  · subst ha
    rfl
  · by_cases hb : "B" = serverName
    · subst hb
      rfl
    · simp [resultsFor, StatusResult.told, aUp, bDown, ha, hb]

end SegsLauncher
