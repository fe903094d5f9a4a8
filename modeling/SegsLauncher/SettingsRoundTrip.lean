import SegsLauncher.Confinement
/-!
# Reading the launcher's settings after writing them

Two writers in two classes save into two stores; `read_launcher_settings` and `launch_cox` read them back.
Other operations stay in regions of their own, so only the two writers and the spelling of the keys decide
what is read. Keys are compared with their case, as where the stores are files.

| here | there |
| --- | --- |
| `launcherSettingsObj`     | the map of `set_launcher_settings` (`Setup.qml:129`) |
| `launcherGameSettingsObj` | the map of `set_launcher_game_settings` (`MainWindow.qml:1219`) |
| `SavesOnce`               | both saves are made, in either order, among other operations |
-/
namespace SegsLauncher

open Launcher LauncherSetup

/-- What a user chooses; the two text fields hold 32-bit numbers. -/
structure ChosenSettings where
  initialConfig : Bool
  coxDir : String
  screenX : Int
  screenY : Int
  fullscreen : Bool
  screenX_int : -2 ^ 31 ≤ screenX ∧ screenX < 2 ^ 31
  screenY_int : -2 ^ 31 ≤ screenY ∧ screenY < 2 ^ 31

namespace ChosenSettings

def launcherSettingsObj (v : ChosenSettings) (url : String) : QVariantMap :=
  [("initial_config", .bool v.initialConfig), ("cox_dir", .string url)]

def launcherGameSettingsObj (v : ChosenSettings) : QVariantMap :=
  let checkState := if v.fullscreen then 1 else 0
  [("screenX", .string (QVariant.int v.screenX).toString), ("screenY", .string (QVariant.int v.screenY).toString),
   ("fullscreen", .int checkState)]

/-- The two saves, each made once, among operations that save neither. -/
structure SavesOnce (v : ChosenSettings) (url : String) (ops : List SettingsOp) : Prop where
  launcherConfig : (ops.filter fun op => op.owner = some .launcherConfig) =
    [.writeLauncherSettings (v.launcherSettingsObj url)]
  gameSettings : (ops.filter fun op => op.owner = some .gameSettings) =
    [.setLauncherGameSettings v.launcherGameSettingsObj]

/-- What was chosen is what is read, and where the game is started. -/
structure ReadBack (v : ChosenSettings) (s : Stores) : Prop where
  initialConfig : (readLauncherSettings s).initialConfig = v.initialConfig
  coxDir : (readLauncherSettings s).coxDir = v.coxDir
  screenX : (readLauncherSettings s).screenX = v.screenX
  screenY : (readLauncherSettings s).screenY = v.screenY
  fullscreen : (readLauncherSettings s).fullscreen = v.fullscreen
  workingDirectory : (launchCox s.settings).workingDirectory = v.coxDir

def RoundTrips (toLocalFile : String → String) (v : ChosenSettings) (url : String) (s : Stores) : Prop :=
  ∀ ops, v.SavesOnce url ops → v.ReadBack (ops.foldl (fun s op => op.run toLocalFile s) s)

/-- `CoXDir` and `fullScreen`, which no operation writes, hold the chosen values already. -/
def HeldBefore (v : ChosenSettings) (s : Stores) : Prop :=
  ((s.settings.lookup [seg "LauncherConfig", seg "CoXDir"]).getD (.string "")).toString = v.coxDir ∧
    ((s.registry.lookup [seg "fullScreen"]).getD (.string "")).toBool = v.fullscreen

/-! ## What the saves leave -/

section Saves
variable (toLocalFile : String → String) {v : ChosenSettings} {url : String} {ops : List SettingsOp}

/-- Each key of the two maps holds what was chosen, and `launch_cox` finds the directory. -/
theorem SavesOnce.lookups (h : v.SavesOnce url ops) (hurl : toLocalFile url = v.coxDir) (s : Stores) :
    let s' := ops.foldl (fun s op => op.run toLocalFile s) s
    s'.settings.lookup [seg "LauncherConfig", seg "InitialConfig"] = some (.bool v.initialConfig) ∧
      s'.settings.lookup [seg "LauncherConfig", seg "CoxDir"] = some (.string v.coxDir) ∧
      s'.registry.lookup [seg "screenX"] = some (.string (QVariant.int v.screenX).toString) ∧
      s'.registry.lookup [seg "screenY"] = some (.string (QVariant.int v.screenY).toString) := by
  have howned := SettingsOp.owned toLocalFile
  have hconfig := fun l hl => howned.get_run_of_filter_eq h.launcherConfig s (l := l) hl
  have hgame := fun l hl => howned.get_run_of_filter_eq h.gameSettings s (l := l) hl
  obtain ⟨hinitial, hdir⟩ := writeLauncherSettings_saved toLocalFile (v.launcherSettingsObj url) s.settings
  obtain ⟨hx, hy, _⟩ := setLauncherGameSettings_saved v.launcherGameSettingsObj s.registry
  refine ⟨?_, ?_, ?_, ?_⟩
  · exact (hconfig (.settings [seg "LauncherConfig", seg "InitialConfig"]) (Or.inl rfl)).trans hinitial
  · rw [← hurl]
    exact (hconfig (.settings [seg "LauncherConfig", seg "CoxDir"]) (Or.inr rfl)).trans hdir
  · exact (hgame (.registry [seg "screenX"]) (Or.inl rfl)).trans hx
  · exact (hgame (.registry [seg "screenY"]) (Or.inr (Or.inl rfl))).trans hy

/-- No operation writes the two keys that are spelled otherwise. -/
theorem get_misspelled (ops : List SettingsOp) (s : Stores) :
    let s' := ops.foldl (fun s op => op.run toLocalFile s) s
    s'.settings.lookup [seg "LauncherConfig", seg "CoXDir"] =
        s.settings.lookup [seg "LauncherConfig", seg "CoXDir"] ∧
      s'.registry.lookup [seg "fullScreen"] = s.registry.lookup [seg "fullScreen"] := by
  have hunowned := fun (l : Location) hl => (SettingsOp.owned toLocalFile).get_run_of_unowned (l := l) hl ops s
  constructor
  · refine hunowned (.settings [seg "LauncherConfig", seg "CoXDir"]) ?_
    intro i hi
    have hregion := Location.region_of_mem hi
    cases i with
    | launcherConfig => rcases hi with h | h <;> exact absurd h (by decide)
    | _ => exact absurd hregion (by decide)
  · refine hunowned (.registry [seg "fullScreen"]) ?_
    intro i hi
    have hregion := Location.region_of_mem hi
    cases i with
    | gameSettings => rcases hi with h | h | h <;> exact absurd h (by decide)
    | _ => exact absurd hregion (by decide)

end Saves

/-! ## Reading back -/

theorem toInt_saved {n : Int} (hn : -2 ^ 31 ≤ n ∧ n < 2 ^ 31) :
    (QVariant.string (QVariant.int n).toString).toInt = n := parseInt_toString hn

/-- Four of the fields are read back always, the others exactly when they were there before. -/
theorem readBack_iff {toLocalFile : String → String} {v : ChosenSettings} {url : String} {ops : List SettingsOp}
    (hurl : toLocalFile url = v.coxDir) (h : v.SavesOnce url ops) (s : Stores) :
    v.ReadBack (ops.foldl (fun s op => op.run toLocalFile s) s) ↔ v.HeldBefore s := by
  obtain ⟨hinitial, hdir, hx, hy⟩ := h.lookups toLocalFile hurl s
  obtain ⟨hCoXDir, hfullScreen⟩ := get_misspelled toLocalFile ops s
  have hread := readLauncherSettings_eq (ops.foldl (fun s op => op.run toLocalFile s) s)
  rw [hinitial, hx, hy, hCoXDir, hfullScreen] at hread
  constructor
  · intro hback
    have hcox := hback.coxDir
    have hfull := hback.fullscreen
    rw [hread] at hcox hfull
    exact ⟨hcox, hfull⟩
  · rintro ⟨hcox, hfull⟩
    constructor
    · rw [hread]
      rfl
    · rw [hread]
      exact hcox
    · rw [hread]
      exact toInt_saved v.screenX_int
    · rw [hread]
      exact toInt_saved v.screenY_int
    · rw [hread]
      exact hfull
    · rw [launchCox_workingDirectory, hdir]
      rfl

/-- **Reading undoes writing** exactly when the reader's own two keys held the chosen values before. -/
theorem roundTrips_iff (toLocalFile : String → String) (v : ChosenSettings) (url : String) (s : Stores)
    (hurl : toLocalFile url = v.coxDir) : v.RoundTrips toLocalFile url s ↔ v.HeldBefore s := by
  constructor
  · intro h
    have honce : v.SavesOnce url
        [.writeLauncherSettings (v.launcherSettingsObj url), .setLauncherGameSettings v.launcherGameSettingsObj] :=
      ⟨rfl, rfl⟩
    exact (readBack_iff hurl honce s).1 (h _ honce)
  · intro h ops hops
    exact (readBack_iff hurl hops s).2 h

/-- What the first run of a fresh installation saves. -/
def firstRun : ChosenSettings where
  initialConfig := true
  coxDir := "/home/u/CoX"
  screenX := 1920
  screenY := 1080
  fullscreen := true
  screenX_int := by decide
  screenY_int := by decide

theorem roundTrips_held :
    firstRun.RoundTrips fileUrlPath "file:///home/u/CoX"
      ⟨(∅ : Store).insert [seg "LauncherConfig", seg "CoXDir"] (.string "/home/u/CoX"),
       (∅ : Store).insert [seg "fullScreen"] (.string "1")⟩ := by
  refine (roundTrips_iff fileUrlPath firstRun "file:///home/u/CoX" _ (by decide)).2 ⟨?_, ?_⟩
  · rw [AList.lookup_insert]
    rfl
  · rw [AList.lookup_insert]
    rfl

/-- On empty stores the directory is written under `CoxDir` and looked for under `CoXDir`. -/
theorem not_roundTrips_empty : ¬ firstRun.RoundTrips fileUrlPath "file:///home/u/CoX" ⟨∅, ∅⟩ := by
  intro h
  have honce : firstRun.SavesOnce "file:///home/u/CoX"
      [.writeLauncherSettings (firstRun.launcherSettingsObj "file:///home/u/CoX"),
       .setLauncherGameSettings firstRun.launcherGameSettingsObj] := ⟨rfl, rfl⟩
  have hheld := (readBack_iff (by decide) honce ⟨∅, ∅⟩).1 (h _ honce)
  exact absurd hheld.1 (by decide)

end ChosenSettings

end SegsLauncher
