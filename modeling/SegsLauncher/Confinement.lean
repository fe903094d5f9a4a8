import SegsLauncher.Lib.Frames
import SegsLauncher.LauncherSettings
/-!
# Every operation stays in its own region of the stores

The two stores together are read at a `Location`. Five disjoint regions cover what the launcher
writes: the community records, the local records, the selected server (with its copy in the
registry), the launcher's own settings and the game settings. Names from replies and from the user
become key segments, so a name may be empty or hold any number of `/`; the push of an empty group
adds nothing and its pop takes nothing away, and the record is still written below its section.
-/
namespace SegsLauncher

inductive Location where
  | settings (key : List Segment)
  | registry (key : List Segment)
deriving DecidableEq

def Stores.get (s : Stores) : Location → Option QVariant
  | .settings key => s.settings.lookup key
  | .registry key => s.registry.lookup key

inductive Region where
  | communityServers
  | localServers
  | selectedServer
  | launcherConfig
  | gameSettings
deriving DecidableEq, Repr

/-- Keys strictly below a group. -/
def settingsBelow (p : List Segment) : Set Location := {l | ∃ a r, l = .settings (p ++ a :: r)}

def Region.locations : Region → Set Location
  | .communityServers => settingsBelow Launcher.communityServers
  | .localServers => settingsBelow Launcher.localServers
  | .selectedServer =>
    {.settings [seg "ServerConfig", seg "LastServerName"], .settings [seg "ServerConfig", seg "LastServerIP"],
     .registry [seg "Auth"]}
  | .launcherConfig =>
    {.settings [seg "LauncherConfig", seg "InitialConfig"], .settings [seg "LauncherConfig", seg "CoxDir"]}
  | .gameSettings => {.registry [seg "screenX"], .registry [seg "screenY"], .registry [seg "fullscreen"]}

/-! ## The operations -/

/-- The calls that reach a store, with every argument a caller can pass. -/
inductive SettingsOp where
  | serversReply (jsonResponse : Document)
  | addLocalServer (server : QVariantMap)
  | setServer (serverDetails : QVariantMap)
  | writeLauncherSettings (launcherSettings : QVariantMap)
  | setLauncherGameSettings (settings : QVariantMap)
  | getLastUsedServer
  | getServerList
  | getServerInformation
  | readLauncherSettings
  | launchCox

/-- What a call hands back. -/
inductive Answer where
  | done
  | lastUsedServer (s : LastUsedServer)
  | serverList (servers : List ServerRecord)
  | serverInformation (servers : List ServerInfo)
  | launcherSettings (s : LauncherSettings)
  | started (p : Process)

def SettingsOp.exec (toLocalFile : String → String) (s : Stores) : SettingsOp → Answer × Stores
  | .serversReply jsonResponse => (.done, { s with settings := Launcher.saveServersReply jsonResponse s.settings })
  | .addLocalServer server => (.done, { s with settings := Launcher.addLocalServer server s.settings })
  | .setServer serverDetails => (.done, Launcher.setServer serverDetails s)
  | .writeLauncherSettings m =>
    (.done, { s with settings := LauncherSetup.writeLauncherSettings toLocalFile m s.settings })
  | .setLauncherGameSettings m =>
    (.done, { s with registry := Launcher.setLauncherGameSettings m s.registry })
  | .getLastUsedServer => (.lastUsedServer (Launcher.getLastUsedServer s.settings), s)
  | .getServerList => (.serverList (Launcher.getServerList s.settings), s)
  | .getServerInformation => (.serverInformation (Launcher.getServerInformation s.settings), s)
  | .readLauncherSettings => (.launcherSettings (LauncherSetup.readLauncherSettings s), s)
  | .launchCox => (.started (Launcher.launchCox s.settings), s)

def SettingsOp.run (toLocalFile : String → String) (op : SettingsOp) (s : Stores) : Stores :=
  (op.exec toLocalFile s).2

def SettingsOp.owner : SettingsOp → Option Region
  | .serversReply _ => some .communityServers
  | .addLocalServer _ => some .localServers
  | .setServer _ => some .selectedServer
  | .writeLauncherSettings _ => some .launcherConfig
  | .setLauncherGameSettings _ => some .gameSettings
  | .getLastUsedServer | .getServerList | .getServerInformation | .readLauncherSettings | .launchCox => none

/-- The locations an operation owns: those of its region, none for a reader. -/
def SettingsOp.locations (op : SettingsOp) : Set Location := {l | ∃ i, op.owner = some i ∧ l ∈ i.locations}

/-! ## Confinement of each operation -/

theorem saveServersReply_lookup (jsonResponse : Document) (st : Store) (k : List Segment)
    (h : ∀ a r, k ≠ Launcher.communityServers ++ a :: r) :
    (Launcher.saveServersReply jsonResponse st).lookup k = st.lookup k := by
  rw [Launcher.saveServersReply_eq]
  -- one `Servers` element after the other, each written below `CommunityServers`
  induction Launcher.serversArray jsonResponse generalizing st with
  | nil => rfl
  | cons value values ih =>
    rw [List.foldl_cons, ih]
    exact KeyTree.lookup_setFields_of_not_below h

theorem addLocalServer_lookup (server : QVariantMap) (st : Store) (k : List Segment)
    (h : ∀ a r, k ≠ Launcher.localServers ++ a :: r) :
    (Launcher.addLocalServer server st).lookup k = st.lookup k := by
  rw [Launcher.addLocalServer_eq]
  exact KeyTree.lookup_setFields_of_not_below h

theorem setServer_get (serverDetails : QVariantMap) (s : Stores) (l : Location)
    (h : l ∉ Region.selectedServer.locations) : (Launcher.setServer serverDetails s).get l = s.get l := by
  simp only [Region.locations, Set.mem_insert_iff, Set.mem_singleton_iff, not_or] at h
  obtain ⟨hn, hi, ha⟩ := h
  cases l with
  | settings k =>
    simp only [Stores.get, Launcher.setServer_settings]
    apply KeyTree.lookup_setFields_of_ne
    intro f hf e
    simp only [List.mem_cons, List.not_mem_nil, or_false] at hf
    rcases hf with rfl | rfl
    · exact hn (congrArg Location.settings e)
    · exact hi (congrArg Location.settings e)
  | registry k =>
    simp only [Stores.get, Launcher.setServer_registry]
    apply KeyTree.lookup_setFields_of_ne
    intro f hf e
    simp only [List.mem_cons, List.not_mem_nil, or_false] at hf
    subst hf
    exact ha (congrArg Location.registry e)

theorem writeLauncherSettings_lookup (toLocalFile : String → String) (m : QVariantMap) (st : Store)
    (k : List Segment) (h : Location.settings k ∉ Region.launcherConfig.locations) :
    (LauncherSetup.writeLauncherSettings toLocalFile m st).lookup k = st.lookup k := by
  simp only [Region.locations, Set.mem_insert_iff, Set.mem_singleton_iff, not_or] at h
  rw [LauncherSetup.writeLauncherSettings_eq]
  apply KeyTree.lookup_setFields_of_ne
  intro f hf e
  simp only [List.mem_cons, List.not_mem_nil, or_false] at hf
  rcases hf with rfl | rfl
  · exact h.1 (congrArg Location.settings e)
  · exact h.2 (congrArg Location.settings e)

theorem setLauncherGameSettings_lookup (m : QVariantMap) (registry : Store) (k : List Segment)
    (h : Location.registry k ∉ Region.gameSettings.locations) :
    (Launcher.setLauncherGameSettings m registry).lookup k = registry.lookup k := by
  simp only [Region.locations, Set.mem_insert_iff, Set.mem_singleton_iff, not_or] at h
  rw [Launcher.setLauncherGameSettings_eq]
  apply KeyTree.lookup_setFields_of_ne
  intro f hf e
  simp only [List.mem_cons, List.not_mem_nil, or_false] at hf
  rcases hf with rfl | rfl | rfl
  · exact h.1 (congrArg Location.registry e)
  · exact h.2.1 (congrArg Location.registry e)
  · exact h.2.2 (congrArg Location.registry e)

theorem not_settingsBelow {p k : List Segment} (h : Location.settings k ∉ settingsBelow p) (a : Segment)
    (r : List Segment) : k ≠ p ++ a :: r := fun e => h ⟨a, r, congrArg Location.settings e⟩

theorem SettingsOp.confined_region (toLocalFile : String → String) (op : SettingsOp) (i : Region)
    (ho : op.owner = some i) : Frames.Confined Stores.get i.locations (op.run toLocalFile) := by
  intro s l hl
  cases op with
  | serversReply jsonResponse =>
    cases ho
    cases l with
    | settings k => exact saveServersReply_lookup _ _ _ (not_settingsBelow hl)
    | registry k => rfl
  | addLocalServer server =>
    cases ho
    cases l with
    | settings k => exact addLocalServer_lookup _ _ _ (not_settingsBelow hl)
    | registry k => rfl
  | setServer serverDetails => cases ho; exact setServer_get _ _ _ hl
  | writeLauncherSettings m =>
    cases ho
    cases l with
    | settings k => exact writeLauncherSettings_lookup _ _ _ _ hl
    | registry k => rfl
  | setLauncherGameSettings m =>
    cases ho
    cases l with
    | settings k => rfl
    | registry k => exact setLauncherGameSettings_lookup _ _ _ hl
  | getLastUsedServer | getServerList | getServerInformation | readLauncherSettings | launchCox => cases ho

theorem SettingsOp.confined (toLocalFile : String → String) (op : SettingsOp) :
    Frames.Confined Stores.get op.locations (op.run toLocalFile) := by
  cases ho : op.owner with
  | some i =>
    refine (op.confined_region toLocalFile i ho).mono fun l hl => ⟨i, ho, hl⟩
  | none =>
    cases op with
    | serversReply | addLocalServer | setServer | writeLauncherSettings | setLauncherGameSettings => cases ho
    | getLastUsedServer | getServerList | getServerInformation | readLauncherSettings | launchCox =>
      exact Frames.Confined.id _

/-! ## What an operation leaves in a region depends on that region only -/

theorem saveServersReply_congr (jsonResponse : Document) (st st' : Store) (k : List Segment)
    (h : st.lookup k = st'.lookup k) :
    (Launcher.saveServersReply jsonResponse st).lookup k =
      (Launcher.saveServersReply jsonResponse st').lookup k := by
  rw [Launcher.saveServersReply_eq, Launcher.saveServersReply_eq]
  induction Launcher.serversArray jsonResponse generalizing st st' with
  | nil => exact h
  | cons value values ih => exact ih _ _ (KeyTree.lookup_setFields_congr h)

theorem SettingsOp.determined (toLocalFile : String → String) (op : SettingsOp) (R : Set Location) :
    Frames.Determined Stores.get R (op.run toLocalFile) := by
  intro s t hst l hl
  have h := hst l hl
  cases op with
  | serversReply jsonResponse =>
    cases l with
    | settings k => exact saveServersReply_congr _ _ _ _ h
    | registry k => exact h
  | addLocalServer server =>
    cases l with
    | settings k =>
      simp only [SettingsOp.run, SettingsOp.exec, Stores.get, Launcher.addLocalServer_eq]
      exact KeyTree.lookup_setFields_congr h
    | registry k => exact h
  | setServer serverDetails =>
    cases l with
    | settings k =>
      simp only [SettingsOp.run, SettingsOp.exec, Stores.get, Launcher.setServer_settings]
      exact KeyTree.lookup_setFields_congr h
    | registry k =>
      simp only [SettingsOp.run, SettingsOp.exec, Stores.get, Launcher.setServer_registry]
      exact KeyTree.lookup_setFields_congr h
  | writeLauncherSettings m =>
    cases l with
    | settings k =>
      simp only [SettingsOp.run, SettingsOp.exec, Stores.get, LauncherSetup.writeLauncherSettings_eq]
      exact KeyTree.lookup_setFields_congr h
    | registry k => exact h
  | setLauncherGameSettings m =>
    cases l with
    | settings k => exact h
    | registry k =>
      simp only [SettingsOp.run, SettingsOp.exec, Stores.get, Launcher.setLauncherGameSettings_eq]
      exact KeyTree.lookup_setFields_congr h
  | getLastUsedServer | getServerList | getServerInformation | readLauncherSettings | launchCox => exact h

/-! ## The regions are disjoint -/

/-- The only region a location can be in. -/
def Location.region : Location → Option Region
  | .settings (g :: f :: _) =>
    if g = seg "LauncherConfig" then some .launcherConfig
    else if f = seg "CommunityServers" then some .communityServers
    else if f = seg "LocalServers" then some .localServers
    else some .selectedServer
  | .settings _ => none
  | .registry key => if key = [seg "Auth"] then some .selectedServer else some .gameSettings

theorem Location.region_of_mem {l : Location} {i : Region} (h : l ∈ i.locations) : l.region = some i := by
  cases i with
  | communityServers => obtain ⟨a, r, rfl⟩ := h; rfl
  | localServers => obtain ⟨a, r, rfl⟩ := h; rfl
  | selectedServer => rcases h with rfl | rfl | rfl <;> decide
  | launcherConfig => rcases h with rfl | rfl <;> decide
  | gameSettings => rcases h with rfl | rfl | rfl <;> decide

theorem Region.disjoint (i j : Region) (h : i ≠ j) : Disjoint i.locations j.locations := by
  rw [Set.disjoint_left]
  intro l hi hj
  have hij : some i = some j := (Location.region_of_mem hi).symm.trans (Location.region_of_mem hj)
  exact h (Option.some.inj hij)

theorem SettingsOp.owned (toLocalFile : String → String) :
    Frames.Owned Stores.get (SettingsOp.run toLocalFile) SettingsOp.owner Region.locations where
  confined := SettingsOp.confined_region toLocalFile
  determined := fun op i _ => op.determined toLocalFile i.locations
  unowned := fun op ho => (op.confined toLocalFile).mono fun _ ⟨_, hi, _⟩ => by rw [ho] at hi; cases hi
  disjoint := Region.disjoint

/-- **Confinement.** Whatever the stores hold and whatever strings the arguments are, an operation
    changes locations of its own region only (a reader changes none); and after any sequence of
    operations, each region is what the operations that own it would have left alone, from any start
    that agrees on that region. -/
theorem operations_confined (toLocalFile : String → String) :
    (∀ (op : SettingsOp) (s : Stores), ∀ l ∉ op.locations, (op.run toLocalFile s).get l = s.get l) ∧
    ∀ (i : Region) (ops : List SettingsOp) (s t : Stores), Frames.AgreeOn Stores.get i.locations s t →
      Frames.AgreeOn Stores.get i.locations (ops.foldl (fun s op => op.run toLocalFile s) s)
        ((ops.filter fun op => op.owner = some i).foldl (fun s op => op.run toLocalFile s) t) :=
  ⟨fun op => op.confined toLocalFile,
   fun i ops s t => (SettingsOp.owned toLocalFile).agreeOn_run_filter i ops s t⟩

/-- A server saved under the empty name leaves the community records alone. -/
theorem operations_confined_empty_name :
    Frames.AgreeOn Stores.get Region.communityServers.locations
      ([SettingsOp.addLocalServer [("server_name", .string ""), ("server_ip", .string "h")],
        .getServerList].foldl (fun s op => op.run id s) ⟨∅, ∅⟩) ⟨∅, ∅⟩ :=
  (operations_confined id).2 .communityServers
    [.addLocalServer [("server_name", .string ""), ("server_ip", .string "h")], .getServerList]
    ⟨∅, ∅⟩ ⟨∅, ∅⟩ fun _ _ => rfl

end SegsLauncher
