import SegsLauncher.Confinement
/-!
# The main window and its backend (MainWindow.qml:1175-1410, Launcher.cpp)

`App` is what the window shows, the `Launcher` members it reads and the stores both use. Every handler
runs to its end before the next event, so each is a function of `App`.

| here | there |
| --- | --- |
| `App.serverListModel`, `Row`    | `server_list_model` and one element of it |
| `App.currentIndex`              | `comboBox_server_select.currentIndex`, -1 when nothing is selected |
| `App.fetchServerListFinished`, `App.serverStatusReady`, `App.fetchReleasesFinished` | how often `populate_server_list`, `get_server_status` and `get_release_info` are connected to the signal of that name; a signal runs each connection once |
| `App.serversInFlight`, `App.releasesInFlight` | requests `fetch_community_servers`, `fetch_release_notes` have sent and no reply has finished |
| `App.getServerStatus`           | `getServerStatus` signals the worker thread has not taken yet |
| `none` in a `Row`               | the role was appended as `undefined` or has not been set on this row. **Qt boundary**: `get` then returns `undefined` for it, also when other rows of the model have a value there |
| `none` in an `Option App`       | a `TypeError` from a role of a row that does not exist; what was done before it stays |

The release notes themselves, the loader and the setup screen are left out: nothing below reads them.
-/
namespace SegsLauncher

structure Row where
  displayText : Option String
  displayTextType : Option String
  serverType : String
  serverName : String
  serverIp : String
  comboBoxServerSelectSvg : String
  serverStatus : Option Bool := none
  serverUptime : Option String := none
deriving DecidableEq, Repr

/-- The saved fields of a row. -/
def Row.record (row : Row) : ServerRecord := ⟨row.serverName, row.serverIp, row.serverType⟩

structure App where
  stores : Stores
  mServerName : String := ""
  mServerStatus : Bool := false
  mServerUptime : Option String := none
  serverListModel : List Row := []
  currentIndex : Int := -1
  serverInfoText : String := ""
  labelOnlineText : String := ""
  labelOnlineColor : String := "blue"
  comboBoxServerSelectContentImg : String := "Resources/Icons/refresh-cw.svg"
  textFieldScreenX : String := ""
  textFieldScreenY : String := ""
  checkBoxFullscreen : Bool := false
  fetchServerListFinished : Nat := 0
  serverStatusReady : Nat := 0
  fetchReleasesFinished : Nat := 0
  serversInFlight : Nat := 0
  releasesInFlight : Nat := 0
  getServerStatus : Nat := 0

/-- `server_list_model.get(i)` -/
def App.row (app : App) (i : Int) : Option Row :=
  if i < 0 then none else app.serverListModel[i.toNat]?

namespace MainWindow

/-- `set_server` (`MainWindow.qml:1343`) -/
def setServer (app : App) : Option App :=
  match app.row app.currentIndex with
  | none => none
  | some row =>
    let serverSettingsArray := serverObj row.serverName row.serverIp
    some { app with stores := Launcher.setServer serverSettingsArray app.stores }

/-- `refresh_status_text` (`:1351`) -/
def refreshStatusText (app : App) : Option App :=
  match app.row app.currentIndex with
  | none => none
  | some row =>
    let app := match row.serverStatus with
      | none => app
      | some true =>
        { app with labelOnlineText := "Online for " ++ row.serverUptime.getD "undefined" ++ " days"
                   labelOnlineColor := "green" }
      | some false => { app with labelOnlineText := "Offline / Unknown Status", labelOnlineColor := "#999999" }
    some { app with comboBoxServerSelectContentImg := row.comboBoxServerSelectSvg }

/-- The loop of `get_server_information` (`:1395-1409`). -/
def findServerInformation (server : String) : List ServerInfo → String → String
  | [], serverInfoText => serverInfoText
  | info :: servers, _ =>
    if server = info.serverName then
      "<b>" ++ info.serverDescription ++ "</b>" ++ "<br><b>Register an account at: </b>" ++ "<a href=" ++
        info.serverWebUrl ++ ">" ++ info.serverWebUrl ++ "</a>"
    else findServerInformation server servers "No server information available"

/-- `get_server_information` (`:1392`) -/
def getServerInformation (server : String) (app : App) : App :=
  let serverInfoObj := Launcher.getServerInformation app.stores.settings
  { app with serverInfoText := findServerInformation server serverInfoObj app.serverInfoText }

/-- `onCurrentIndexChanged` (`:536`) -/
def onCurrentIndexChanged (app : App) : App :=
  match setServer app with
  | none => app
  | some app =>
    match refreshStatusText app with
    | none => app
    | some app =>
      match app.row app.currentIndex with
      | none => app
      | some row => getServerInformation row.serverName app

/-- `comboBox_server_select.currentIndex = i`: the handler runs exactly when the value changes. -/
def setCurrentIndex (i : Int) (app : App) : App :=
  if app.currentIndex = i then app else onCurrentIndexChanged { app with currentIndex := i }

/-- `fetch_release_info` (`:1376`) -/
def fetchReleaseInfo (app : App) : App :=
  { app with fetchReleasesFinished := app.fetchReleasesFinished + 1
             releasesInFlight := app.releasesInFlight + 1 }

/-- The loop of `get_last_used_server` (`:1237-1245`), over the indices still to come. -/
def selectLastUsed (serverName : String) : List Nat → App → App
  | [], app => app
  | i :: is, app =>
    let app :=
      if (app.row i).map Row.serverName = some serverName then setCurrentIndex i app else setCurrentIndex 0 app
    selectLastUsed serverName is app

/-- `get_last_used_server` (`:1234`) -/
def getLastUsedServer (app : App) : App :=
  let serverSettingsObj := Launcher.getLastUsedServer app.stores.settings
  fetchReleaseInfo (selectLastUsed serverSettingsObj.serverName (List.range app.serverListModel.length) app)

/-- `fetch_server_list` (`:1250`) -/
def fetchServerList (app : App) : App :=
  { app with fetchServerListFinished := app.fetchServerListFinished + 1
             serversInFlight := app.serversInFlight + 1 }

/-- `start_server_status_worker` (`Launcher.cpp:282`) -/
def startServerStatusWorker (app : App) : App := { app with getServerStatus := app.getServerStatus + 1 }

/-- The loop of `populate_server_list` (`:1263-1280`); `temp` and `type` are set for the two known server
types only and keep their last value otherwise. -/
def appendServers : List ServerRecord → Option String → Option String → App → App
  | [], _, _, app => app
  | server :: servers, temp, type, app =>
    let (temp, type) :=
      if server.serverType = "C" then
        (some (server.serverName ++ " (" ++ server.serverIp ++ ") "), some "Community")
      else if server.serverType = "L" then
        (some (server.serverName ++ " (" ++ server.serverIp ++ ") "), some "Custom")
      else (temp, type)
    let row : Row :=
      { displayText := temp, displayTextType := type, serverType := server.serverType,
        serverName := server.serverName, serverIp := server.serverIp,
        comboBoxServerSelectSvg := "Resources/Icons/refresh-cw.svg" }
    appendServers servers temp type { app with serverListModel := app.serverListModel ++ [row] }

/-- `populate_server_list` (`:1258`) -/
def populateServerList (app : App) : App :=
  let serverObj := Launcher.getServerList app.stores.settings
  let app := appendServers serverObj none none app
  let app := { app with serverStatusReady := app.serverStatusReady + 1 }
  let app := startServerStatusWorker app
  getLastUsedServer app

/-- What `is_server_online` (`Launcher.cpp:308`) returns. -/
structure ServerStatus where
  serverName : String
  serverStatus : Bool
  serverUptime : Option String

def isServerOnline (app : App) : ServerStatus := ⟨app.mServerName, app.mServerStatus, app.mServerUptime⟩

/-- The row after its turn of the loop of `get_server_status` (`:1292-1318`). -/
def statusRow (serverStatusObj : ServerStatus) (row : Row) : Row :=
  if serverStatusObj.serverName = row.serverName then
    if serverStatusObj.serverStatus = true then
      if row.serverType = "C" then
        { row with serverStatus := some true, serverUptime := serverStatusObj.serverUptime,
                   comboBoxServerSelectSvg := "Resources/Icons/globe_green.svg" }
      else if row.serverType = "L" then
        { row with serverStatus := some true, serverUptime := serverStatusObj.serverUptime,
                   comboBoxServerSelectSvg := "Resources/Icons/server_green.svg" }
      else row
    else
      if row.serverType = "C" then
        { row with serverStatus := some false, comboBoxServerSelectSvg := "Resources/Icons/globe_red.svg" }
      else if row.serverType = "L" then
        { row with serverStatus := some false, comboBoxServerSelectSvg := "Resources/Icons/server_red.svg" }
      else row
  else row

/-- The loop of `get_server_status` (`:1290-1320`), over the indices still to come. -/
def updateRows (serverStatusObj : ServerStatus) : List Nat → App → App
  | [], app => app
  | i :: is, app =>
    let app := { app with serverListModel := app.serverListModel.modify i (statusRow serverStatusObj) }
    match refreshStatusText app with
    | none => app
    | some app => updateRows serverStatusObj is app

/-- `get_server_status` (`:1287`) -/
def getServerStatus (app : App) : App :=
  updateRows (isServerOnline app) (List.range app.serverListModel.length) app

/-- `add_to_server_list` (`:1324`) -/
def addToServerList (serverName serverIp : String) (app : App) : App :=
  let stores := { app.stores with
    settings := Launcher.addLocalServer (serverObj serverName serverIp) app.stores.settings }
  let temp := serverName ++ " (" ++ serverIp ++ ") "
  let row : Row :=
    { displayText := some temp, displayTextType := some "Custom", serverType := "L", serverName := serverName,
      serverIp := serverIp, comboBoxServerSelectSvg := "Resources/Icons/refresh-cw.svg" }
  let app := { app with stores := stores, serverListModel := app.serverListModel ++ [row] }
  let app := setCurrentIndex (app.serverListModel.length - 1) app
  startServerStatusWorker app

/-- `get_launcher_settings` (`:1200`) -/
def getLauncherSettings (app : App) : App :=
  let launcherSettingsObj := LauncherSetup.readLauncherSettings app.stores
  if launcherSettingsObj.initialConfig = true then
    fetchServerList { app with
      textFieldScreenX := (QVariant.int launcherSettingsObj.screenX).toString
      textFieldScreenY := (QVariant.int launcherSettingsObj.screenY).toString
      checkBoxFullscreen := launcherSettingsObj.fullscreen }
  else app

/-- `start_up` (`:1176`) -/
def startUp (app : App) : App := getLauncherSettings app

end MainWindow

namespace Launcher

/-- `handle_servers_reply` (`Launcher.cpp:79`) on a reply without an error: the records are saved, then
`fetchServerListFinished` runs every connected `populate_server_list`. -/
def handleServersReply (jsonResponse : Document) (app : App) : App :=
  let app := { app with
    stores := { app.stores with settings := saveServersReply jsonResponse app.stores.settings } }
  (MainWindow.populateServerList)^[app.fetchServerListFinished] app

/-- `handle_server_status_worker` (`:288`): `serverStatusReady` runs every connected `get_server_status`. -/
def handleServerStatusWorker (status : Bool) (server uptime : String) (app : App) : App :=
  let app :=
    if status = true then
      { app with mServerName := server, mServerStatus := true, mServerUptime := some uptime }
    else { app with mServerName := server, mServerStatus := false }
  (MainWindow.getServerStatus)^[app.serverStatusReady] app

end Launcher

/-! ## Events -/

inductive Event where
  | startUp
  | fetchServerList
  | populateServerList
  | getLastUsedServer
  | addToServerList (serverName serverIp : String)
  | select (i : Nat)
  | serversReply (jsonResponse : Document)
  | serversReplyError
  | serverStatus (status : Bool) (server uptime : String)

/-- One event on the window's thread. A reply needs a request that is still out, a selection a row. -/
def App.step (app : App) : Event → Option App
  | .startUp => some (MainWindow.startUp app)
  | .fetchServerList => some (MainWindow.fetchServerList app)
  | .populateServerList => some (MainWindow.populateServerList app)
  | .getLastUsedServer => some (MainWindow.getLastUsedServer app)
  | .addToServerList serverName serverIp => some (MainWindow.addToServerList serverName serverIp app)
  | .select i => if i < app.serverListModel.length then some (MainWindow.setCurrentIndex i app) else none
  | .serversReply jsonResponse =>
    if 0 < app.serversInFlight then
      some (Launcher.handleServersReply jsonResponse { app with serversInFlight := app.serversInFlight - 1 })
    else none
  | .serversReplyError =>
    if 0 < app.serversInFlight then some { app with serversInFlight := app.serversInFlight - 1 } else none
  | .serverStatus status server uptime => some (Launcher.handleServerStatusWorker status server uptime app)

/-- The window before its first event, over any stores. -/
def App.init (stores : Stores) : App := { stores := stores }

end SegsLauncher
