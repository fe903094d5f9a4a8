import SegsLauncher.Launcher
/-!
# `LauncherSetup`: the launcher's own settings (LauncherSetup.cpp:43-77)

| here | there |
| --- | --- |
| `readLauncherSettings`  | `read_launcher_settings` (`LauncherSetup.cpp:43`) |
| `writeLauncherSettings` | `write_launcher_settings` (`:69`) |

`QUrl(..).toLocalFile()` enters as `toLocalFile`: nothing here depends on what it computes.
-/
namespace SegsLauncher

/-- The map `read_launcher_settings` returns. -/
structure LauncherSettings where
  initialConfig : Bool
  coxDir : String
  serverType : String
  screenX : Int
  screenY : Int
  fullscreen : Bool
deriving DecidableEq, Repr

namespace LauncherSetup

def readLauncherSettings (s : Stores) : LauncherSettings :=
  let settings := QSettings.new
  let settings := settings.beginGroup "LauncherConfig"
  let segsSettings := QSettings.new
  { initialConfig := (settings.value s.settings "InitialConfig" (.string "")).toBool
    coxDir := (settings.value s.settings "CoXDir" (.string "")).toString
    serverType := (settings.value s.settings "ServerTypeRadioButton" (.string "")).toString
    screenX := (segsSettings.value s.registry "screenX" (.string "")).toInt
    screenY := (segsSettings.value s.registry "screenY" (.string "")).toInt
    fullscreen := (segsSettings.value s.registry "fullScreen" (.string "")).toBool }

def writeLauncherSettings (toLocalFile : String → String) (launcherSettings : QVariantMap) (st : Store) : Store :=
  let coxDirPath := toLocalFile (launcherSettings.get "cox_dir").toString
  let settings := QSettings.new
  let settings := settings.beginGroup "LauncherConfig"
  let st := settings.setValue st "InitialConfig" (launcherSettings.get "initial_config")
  settings.setValue st "CoxDir" (.string coxDirPath)

theorem writeLauncherSettings_eq (toLocalFile : String → String) (launcherSettings : QVariantMap) (st : Store) :
    writeLauncherSettings toLocalFile launcherSettings st =
      KeyTree.setFields [seg "LauncherConfig"]
        [(seg "InitialConfig", launcherSettings.get "initial_config"),
         (seg "CoxDir", .string (toLocalFile (launcherSettings.get "cox_dir").toString))] st := by
  simp (disch := decide) only [writeLauncherSettings, QSettings.setValue, QSettings.actualKey,
    QSettings.groupPrefix_beginGroup, QSettings.groupPrefix_new, normalizedKey_seg,
    KeyTree.setFields_cons, KeyTree.setFields_nil, List.nil_append]

/-- `QUrl(..).toLocalFile()` where the URL has no escapes and no host; no file URL, no path. -/
def fileUrlPath (url : String) : String :=
  if "file://".toList <+: url.toList then String.ofList (url.toList.drop 7) else ""

/-- Both keys are written, whatever they held. -/
theorem writeLauncherSettings_saved (toLocalFile : String → String) (m : QVariantMap) (st : Store) :
    (writeLauncherSettings toLocalFile m st).lookup [seg "LauncherConfig", seg "InitialConfig"] =
        some (m.get "initial_config") ∧
      (writeLauncherSettings toLocalFile m st).lookup [seg "LauncherConfig", seg "CoxDir"] =
        some (.string (toLocalFile (m.get "cox_dir").toString)) := by
  have hfields : ([(seg "InitialConfig", m.get "initial_config"),
      (seg "CoxDir", .string (toLocalFile (m.get "cox_dir").toString))].map Prod.fst).Nodup := by
    change [seg "InitialConfig", seg "CoxDir"].Nodup
    decide
  rw [writeLauncherSettings_eq]
  exact ⟨KeyTree.lookup_setFields_of_mem hfields (by simp), KeyTree.lookup_setFields_of_mem hfields (by simp)⟩

/-- Where each field is read. -/
theorem readLauncherSettings_eq (s : Stores) :
    readLauncherSettings s =
      { initialConfig := ((s.settings.lookup [seg "LauncherConfig", seg "InitialConfig"]).getD (.string "")).toBool
        coxDir := ((s.settings.lookup [seg "LauncherConfig", seg "CoXDir"]).getD (.string "")).toString
        serverType :=
          ((s.settings.lookup [seg "LauncherConfig", seg "ServerTypeRadioButton"]).getD (.string "")).toString
        screenX := ((s.registry.lookup [seg "screenX"]).getD (.string "")).toInt
        screenY := ((s.registry.lookup [seg "screenY"]).getD (.string "")).toInt
        fullscreen := ((s.registry.lookup [seg "fullScreen"]).getD (.string "")).toBool } := by
  rw [readLauncherSettings, QSettings.value_group _ "LauncherConfig" "InitialConfig" _ (by decide) (by decide),
    QSettings.value_group _ "LauncherConfig" "CoXDir" _ (by decide) (by decide),
    QSettings.value_group _ "LauncherConfig" "ServerTypeRadioButton" _ (by decide) (by decide),
    QSettings.value_root _ "screenX" _ (by decide), QSettings.value_root _ "screenY" _ (by decide),
    QSettings.value_root _ "fullScreen" _ (by decide)]

/-- `start_up` branches on this key only. -/
theorem readLauncherSettings_initialConfig (s : Stores) :
    (readLauncherSettings s).initialConfig =
      ((s.settings.lookup [seg "LauncherConfig", seg "InitialConfig"]).getD (.string "")).toBool := by
  rw [readLauncherSettings_eq]

end LauncherSetup

end SegsLauncher
