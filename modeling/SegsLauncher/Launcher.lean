import SegsLauncher.Qt
/-!
# `Launcher`: what it keeps in the settings (Launcher.cpp)

| here | there |
| --- | --- |
| `Stores`                     | the default `QSettings` location and the registry location `HKEY_CURRENT_USER\Software\Cryptic\SEGS` |
| `saveServersReply`           | `handle_servers_reply` (`Launcher.cpp:84-106`), from the parsed reply to the last `endGroup` |
| `setServer`                  | `set_server` (`:119`) |
| `getLastUsedServer`          | `get_last_used_server` (`:133`) |
| `getServerList`              | `get_server_list` (`:147`); the `Servers` array is the list itself |
| `getServerInformation`       | `get_server_information` (`:195`), likewise |
| `addLocalServer`             | `add_local_server` (`:318`) |
| `setLauncherGameSettings`    | `set_launcher_game_settings` (`:334`) |
| `launchCox`                  | `launch_cox` (`:38`): the process it starts |

Each function comes with one equation that says what it reads or writes in terms of `KeyTree`;
nothing after this module unfolds the group pushes and pops.
-/
namespace SegsLauncher

structure Stores where
  settings : Store
  registry : Store

/-- One element of the `Servers` array of `get_server_list`. -/
structure ServerRecord where
  serverName : String
  serverIp : String
  serverType : String
deriving DecidableEq, Repr

/-- One element of the `Servers` array of `get_server_information`. -/
structure ServerInfo where
  serverName : String
  serverDescription : String
  serverWebUrl : String
deriving DecidableEq, Repr

/-- The two strings `get_last_used_server` returns. -/
structure LastUsedServer where
  serverName : String
  serverIp : String
deriving DecidableEq, Repr

/-- A `QProcess` as `launch_cox` starts it. -/
structure Process where
  program : String
  arguments : List String
  workingDirectory : String
deriving DecidableEq, Repr

/-- `{server_name: .., server_ip: ..}`, as the QML side builds it. -/
def serverObj (serverName serverIp : String) : QVariantMap :=
  [("server_name", .string serverName), ("server_ip", .string serverIp)]

@[simp] theorem serverObj_name (serverName serverIp : String) :
    (serverObj serverName serverIp).get "server_name" = .string serverName := rfl

@[simp] theorem serverObj_ip (serverName serverIp : String) :
    (serverObj serverName serverIp).get "server_ip" = .string serverIp := rfl

namespace Launcher

/-- One turn of the loop over the `Servers` array (`:93-104`). -/
def saveCommunityServer (settings : QSettings) (st : Store) (value : Json) : QSettings × Store :=
  let jsonObj := (value.get "ServerDetails").toObject
  let settings := settings.beginGroup (jsonObj.get "Name").toString
  let st := settings.setValue st "ServerName" (.string (jsonObj.get "Name").toString)
  let st := settings.setValue st "ServerIP" (.string (jsonObj.get "IP").toString)
  let st := settings.setValue st "ServerDescription" (.string (jsonObj.get "Description").toString)
  let st := settings.setValue st "ServerWebURL" (.string (jsonObj.get "WebURL").toString)
  let st := settings.setValue st "ServerType" (.string "C")
  (settings.endGroup, st)

def saveCommunityServers : List Json → QSettings → Store → QSettings × Store
  | [], settings, st => (settings, st)
  | value :: jsonArray, settings, st =>
    let (settings, st) := saveCommunityServer settings st value
    saveCommunityServers jsonArray settings st

/-- `json_obj["Servers"].toArray()` of a parsed reply. -/
def serversArray (jsonResponse : Document) : List Json :=
  (JsonObject.get jsonResponse.object "Servers").toArray

def saveServersReply (jsonResponse : Document) (st : Store) : Store :=
  let settings := QSettings.new
  let settings := settings.beginGroup "ServerConfig"
  let settings := settings.beginGroup "CommunityServers"
  (saveCommunityServers (serversArray jsonResponse) settings st).2

def setServer (serverDetails : QVariantMap) (s : Stores) : Stores :=
  let settings := QSettings.new
  let settings := settings.beginGroup "ServerConfig"
  let st := settings.setValue s.settings "LastServerName" (serverDetails.get "server_name")
  let st := settings.setValue st "LastServerIP" (serverDetails.get "server_ip")
  let segsSettings := QSettings.new
  { settings := st, registry := segsSettings.setValue s.registry "Auth" (serverDetails.get "server_ip") }

def getLastUsedServer (st : Store) : LastUsedServer :=
  let settings := QSettings.new
  let settings := settings.beginGroup "ServerConfig"
  { serverName := (settings.value st "LastServerName" (.string "")).toString
    serverIp := (settings.value st "LastServerIP" (.string "")).toString }

/-- One turn of either loop of `get_server_list` (`:157-167`, `:174-184`). -/
def readServer (settings : QSettings) (st : Store) (group : String) : ServerRecord :=
  let settings := settings.beginGroup group
  { serverName := (settings.value st "ServerName" (.string "")).toString
    serverIp := (settings.value st "ServerIP" (.string "")).toString
    serverType := (settings.value st "ServerType" (.string "")).toString }

def getServerList (st : Store) : List ServerRecord :=
  let settings := QSettings.new
  let settings := settings.beginGroup "ServerConfig"
  let settings := settings.beginGroup "CommunityServers"
  let community := (settings.childGroups st).map (readServer settings st)
  let settings := settings.endGroup
  let settings := settings.beginGroup "LocalServers"
  community ++ (settings.childGroups st).map (readServer settings st)

/-- One turn of the loop of `get_server_information` (`:204-213`). -/
def readServerInfo (settings : QSettings) (st : Store) (group : String) : ServerInfo :=
  let settings := settings.beginGroup group
  { serverName := (settings.value st "ServerName" (.string "")).toString
    serverDescription := (settings.value st "ServerDescription" (.string "")).toString
    serverWebUrl := (settings.value st "ServerWebURL" (.string "")).toString }

def getServerInformation (st : Store) : List ServerInfo :=
  let settings := QSettings.new
  let settings := settings.beginGroup "ServerConfig"
  let settings := settings.beginGroup "CommunityServers"
  (settings.childGroups st).map (readServerInfo settings st)

def addLocalServer (server : QVariantMap) (st : Store) : Store :=
  let settings := QSettings.new
  let settings := settings.beginGroup "ServerConfig"
  let settings := settings.beginGroup "LocalServers"
  let settings := settings.beginGroup (server.get "server_name").toString
  let st := settings.setValue st "ServerName" (server.get "server_name")
  let st := settings.setValue st "ServerIP" (server.get "server_ip")
  settings.setValue st "ServerType" (.string "L")

def setLauncherGameSettings (settings : QVariantMap) (registry : Store) : Store :=
  let segsSettings := QSettings.new
  let registry := segsSettings.setValue registry "screenX" (.string (settings.get "screenX").toString)
  let registry := segsSettings.setValue registry "screenY" (.string (settings.get "screenY").toString)
  segsSettings.setValue registry "fullscreen" (.string (settings.get "fullscreen").toString)

def launchCox (st : Store) : Process :=
  let settings := QSettings.new
  let settings := settings.beginGroup "LauncherConfig"
  let coxDir := (settings.value st "CoxDir" (.string "")).toString
  { program := coxDir ++ "/CoX.exe", arguments := ["-project", "SEGS"], workingDirectory := coxDir }

/-! ## Where the records live -/

/-- `ServerConfig/CommunityServers` -/
def communityServers : List Segment := [seg "ServerConfig", seg "CommunityServers"]

/-- `ServerConfig/LocalServers` -/
def localServers : List Segment := [seg "ServerConfig", seg "LocalServers"]

/-- A string of a `Servers` element's `ServerDetails`. -/
def serverDetail (value : Json) (field : String) : String :=
  (JsonObject.get (value.get "ServerDetails").toObject field).toString

/-- The name a `Servers` element is saved under. -/
def communityName (value : Json) : String := serverDetail value "Name"

/-- The fields `handle_servers_reply` writes for one element. -/
def communityFields (value : Json) : List (Segment × QVariant) :=
  [(seg "ServerName", .string (communityName value)), (seg "ServerIP", .string (serverDetail value "IP")),
   (seg "ServerDescription", .string (serverDetail value "Description")),
   (seg "ServerWebURL", .string (serverDetail value "WebURL")), (seg "ServerType", .string "C")]

/-- The fields `add_local_server` writes. -/
def localFields (server : QVariantMap) : List (Segment × QVariant) :=
  [(seg "ServerName", server.get "server_name"), (seg "ServerIP", server.get "server_ip"),
   (seg "ServerType", .string "L")]

theorem communityFields_nodup (value : Json) : ((communityFields value).map Prod.fst).Nodup := by
  change [seg "ServerName", seg "ServerIP", seg "ServerDescription", seg "ServerWebURL",
    seg "ServerType"].Nodup
  decide

theorem localFields_nodup (server : QVariantMap) : ((localFields server).map Prod.fst).Nodup := by
  change [seg "ServerName", seg "ServerIP", seg "ServerType"].Nodup
  decide

theorem saveCommunityServer_eq (settings : QSettings) (st : Store) (value : Json) :
    saveCommunityServer settings st value =
      (settings, KeyTree.setFields (settings.groupPrefix ++ normalizedKey (communityName value))
        (communityFields value) st) := by
  simp (disch := decide) only [saveCommunityServer, QSettings.endGroup_beginGroup, QSettings.setValue,
    QSettings.actualKey, QSettings.groupPrefix_beginGroup, normalizedKey_seg, communityFields,
    KeyTree.setFields_cons, KeyTree.setFields_nil, communityName, serverDetail]

/-- `handle_servers_reply` writes the records one after the other, below `CommunityServers`. -/
theorem saveCommunityServers_eq (settings : QSettings) : ∀ (jsonArray : List Json) (st : Store),
    saveCommunityServers jsonArray settings st =
      (settings, jsonArray.foldl (fun st value =>
        KeyTree.setFields (settings.groupPrefix ++ normalizedKey (communityName value))
          (communityFields value) st) st)
  | [], _ => rfl
  | value :: jsonArray, st => by
    rw [saveCommunityServers, saveCommunityServer_eq]
    exact saveCommunityServers_eq settings jsonArray _

theorem saveServersReply_eq (jsonResponse : Document) (st : Store) :
    saveServersReply jsonResponse st =
      (serversArray jsonResponse).foldl (fun st value =>
        KeyTree.setFields (communityServers ++ normalizedKey (communityName value))
          (communityFields value) st) st := by
  simp (disch := decide) only [saveServersReply, saveCommunityServers_eq, QSettings.groupPrefix_beginGroup,
    QSettings.groupPrefix_new, normalizedKey_seg]
  rfl

theorem addLocalServer_eq (server : QVariantMap) (st : Store) :
    addLocalServer server st =
      KeyTree.setFields (localServers ++ normalizedKey (server.get "server_name").toString)
        (localFields server) st := by
  simp (disch := decide) only [addLocalServer, QSettings.setValue, QSettings.actualKey,
    QSettings.groupPrefix_beginGroup, QSettings.groupPrefix_new, normalizedKey_seg, localFields,
    KeyTree.setFields_cons, KeyTree.setFields_nil]
  rfl

theorem setServer_settings (serverDetails : QVariantMap) (s : Stores) :
    (setServer serverDetails s).settings =
      KeyTree.setFields [seg "ServerConfig"]
        [(seg "LastServerName", serverDetails.get "server_name"),
         (seg "LastServerIP", serverDetails.get "server_ip")] s.settings := by
  simp (disch := decide) only [setServer, QSettings.setValue, QSettings.actualKey,
    QSettings.groupPrefix_beginGroup, QSettings.groupPrefix_new, normalizedKey_seg,
    KeyTree.setFields_cons, KeyTree.setFields_nil, List.nil_append]

theorem setServer_registry (serverDetails : QVariantMap) (s : Stores) :
    (setServer serverDetails s).registry =
      KeyTree.setFields [] [(seg "Auth", serverDetails.get "server_ip")] s.registry := by
  simp (disch := decide) only [setServer, QSettings.setValue, QSettings.actualKey,
    QSettings.groupPrefix_new, normalizedKey_seg, KeyTree.setFields_cons, KeyTree.setFields_nil]

theorem setLauncherGameSettings_eq (settings : QVariantMap) (registry : Store) :
    setLauncherGameSettings settings registry =
      KeyTree.setFields []
        [(seg "screenX", .string (settings.get "screenX").toString),
         (seg "screenY", .string (settings.get "screenY").toString),
         (seg "fullscreen", .string (settings.get "fullscreen").toString)] registry := by
  simp (disch := decide) only [setLauncherGameSettings, QSettings.setValue, QSettings.actualKey,
    QSettings.groupPrefix_new, normalizedKey_seg, KeyTree.setFields_cons, KeyTree.setFields_nil]

theorem setLauncherGameSettings_saved (m : QVariantMap) (registry : Store) :
    (setLauncherGameSettings m registry).lookup [seg "screenX"] = some (.string (m.get "screenX").toString) ∧
      (setLauncherGameSettings m registry).lookup [seg "screenY"] = some (.string (m.get "screenY").toString) ∧
      (setLauncherGameSettings m registry).lookup [seg "fullscreen"] =
        some (.string (m.get "fullscreen").toString) := by
  have hfields : ([(seg "screenX", QVariant.string (m.get "screenX").toString),
      (seg "screenY", .string (m.get "screenY").toString),
      (seg "fullscreen", .string (m.get "fullscreen").toString)].map Prod.fst).Nodup := by
    change [seg "screenX", seg "screenY", seg "fullscreen"].Nodup
    decide
  have hlookup := fun f (v : QVariant) =>
    KeyTree.lookup_setFields_of_mem (p := []) (f := f) (v := v) (t := registry) hfields
  rw [setLauncherGameSettings_eq]
  exact ⟨hlookup _ _ (by simp), hlookup _ _ (by simp), hlookup _ _ (by simp)⟩

/-! ## What the readers return -/

theorem launchCox_workingDirectory (st : Store) :
    (launchCox st).workingDirectory =
      ((st.lookup [seg "LauncherConfig", seg "CoxDir"]).getD (.string "")).toString := by
  rw [launchCox, QSettings.value_group _ "LauncherConfig" "CoxDir" _ (by decide) (by decide)]

/-- The string a reader gets for `field` of the record at `path`. -/
def fieldAt (st : Store) (path : List Segment) (field : Segment) : String :=
  ((st.lookup (path ++ [field])).getD (.string "")).toString

def recordAt (p : List Segment) (st : Store) (g : Segment) : ServerRecord :=
  ⟨fieldAt st (p ++ [g]) (seg "ServerName"), fieldAt st (p ++ [g]) (seg "ServerIP"),
   fieldAt st (p ++ [g]) (seg "ServerType")⟩

def infoAt (p : List Segment) (st : Store) (g : Segment) : ServerInfo :=
  ⟨fieldAt st (p ++ [g]) (seg "ServerName"), fieldAt st (p ++ [g]) (seg "ServerDescription"),
   fieldAt st (p ++ [g]) (seg "ServerWebURL")⟩

theorem value_beginGroup_segment (settings : QSettings) (st : Store) (g field : Segment) :
    ((settings.beginGroup g.1).value st field.1 (.string "")).toString =
      fieldAt st (settings.groupPrefix ++ [g]) field := by
  rw [QSettings.value, QSettings.actualKey, QSettings.groupPrefix_beginGroup, normalizedKey_segment,
    normalizedKey_segment, fieldAt]

theorem readServer_segment (settings : QSettings) (st : Store) (g : Segment) :
    readServer settings st g.1 = recordAt settings.groupPrefix st g := by
  have h := value_beginGroup_segment settings st g
  rw [readServer, recordAt, ← h (seg "ServerName"), ← h (seg "ServerIP"), ← h (seg "ServerType")]

theorem readServerInfo_segment (settings : QSettings) (st : Store) (g : Segment) :
    readServerInfo settings st g.1 = infoAt settings.groupPrefix st g := by
  have h := value_beginGroup_segment settings st g
  rw [readServerInfo, infoAt, ← h (seg "ServerName"), ← h (seg "ServerDescription"),
    ← h (seg "ServerWebURL")]

/-- The groups of one section, in the order the loops visit them. -/
def groupsOf (p : List Segment) (st : Store) : List Segment :=
  (KeyTree.childGroups p st).insertionSort fun a b => utf16 a.1 ≤ utf16 b.1

theorem groupsOf_perm (p : List Segment) (st : Store) :
    (groupsOf p st).Perm (KeyTree.childGroups p st) := List.perm_insertionSort _ _

theorem groupsOf_pairwise (p : List Segment) (st : Store) :
    (groupsOf p st).Pairwise fun a b => utf16 a.1 ≤ utf16 b.1 := by
  have htotal : Std.Total fun a b : Segment => utf16 a.1 ≤ utf16 b.1 := ⟨fun _ _ => le_total _ _⟩
  have htrans : IsTrans Segment fun a b => utf16 a.1 ≤ utf16 b.1 := ⟨fun _ _ _ => le_trans⟩
  exact List.pairwise_insertionSort _ _

@[simp] theorem mem_groupsOf {p : List Segment} {st : Store} {g : Segment} :
    g ∈ groupsOf p st ↔ g ∈ KeyTree.childGroups p st := (groupsOf_perm p st).mem_iff

theorem nodup_groupsOf (p : List Segment) (st : Store) : (groupsOf p st).Nodup :=
  (groupsOf_perm p st).nodup_iff.2 (KeyTree.nodup_childGroups p st)

theorem childGroups_eq (q : QSettings) (st : Store) :
    q.childGroups st = (groupsOf q.groupPrefix st).map Subtype.val := by
  symm
  exact List.map_insertionSort (fun a b : Segment => utf16 a.1 ≤ utf16 b.1) (fun a b => utf16 a ≤ utf16 b)
    Subtype.val _ fun _ _ _ _ => Iff.rfl

theorem communityServers_groupPrefix :
    ((QSettings.new.beginGroup "ServerConfig").beginGroup "CommunityServers").groupPrefix =
      communityServers := by
  simp (disch := decide) only [QSettings.groupPrefix_beginGroup, QSettings.groupPrefix_new, normalizedKey_seg]
  rfl

theorem localServers_groupPrefix :
    ((QSettings.new.beginGroup "ServerConfig").beginGroup "LocalServers").groupPrefix = localServers := by
  simp (disch := decide) only [QSettings.groupPrefix_beginGroup, QSettings.groupPrefix_new, normalizedKey_seg]
  rfl

/-- `get_server_list` reads one record per group, community servers first. -/
theorem getServerList_eq (st : Store) :
    getServerList st = (groupsOf communityServers st).map (recordAt communityServers st) ++
      (groupsOf localServers st).map (recordAt localServers st) := by
  simp only [getServerList, QSettings.endGroup_beginGroup, childGroups_eq, List.map_map,
    communityServers_groupPrefix, localServers_groupPrefix]
  congr 1 <;> refine List.map_congr_left fun g _ => ?_
  · rw [Function.comp_apply, readServer_segment, communityServers_groupPrefix]
  · rw [Function.comp_apply, readServer_segment, localServers_groupPrefix]

theorem getServerInformation_eq (st : Store) :
    getServerInformation st = (groupsOf communityServers st).map (infoAt communityServers st) := by
  simp only [getServerInformation, childGroups_eq, List.map_map, communityServers_groupPrefix]
  apply List.map_congr_left
  intro g _
  rw [Function.comp_apply, readServerInfo_segment, communityServers_groupPrefix]

end Launcher

end SegsLauncher
