import SegsLauncher.Handlers
import SegsLauncher.Lib.Runs
/-!
# Sessions of the launcher and the store each of them addresses (main.cpp:27-38)

A default-constructed `QSettings` addresses the store named by the organization and the application in
force when it is constructed. `main` loads the window first, and `Component.onCompleted` runs `start_up`
before `engine.load` returns; the names are set after that.

| here | there |
| --- | --- |
| `CoreApplication`         | the names `QCoreApplication` holds |
| `CoreApplication.atLoad`  | before `main.cpp:33`: no organization, and the program's own name, `exe` |
| `CoreApplication.named`   | after `main.cpp:35` |
| `ConfigFile`              | the store a default-constructed `QSettings` addresses |
| `SessionEvent.main`       | one launch, up to the event loop |
| `SessionEvent.loadFailed` | a launch that returns -1: no window was loaded |
| `Op.finish`               | `set_launcher_settings` of the setup screen (`Setup.qml:127`) |
| `Op.dispatch`             | the worker starts `server_status_dispatcher` (`Worker.cpp:22`) |

`opened`, `lastLeft`, `configured` and `startUps` are not in the source. They record which store each
default-constructed `QSettings` addressed, what the last one left there, whether a session has saved
`initial_config`, and what each `start_up` found.
-/
namespace SegsLauncher

structure CoreApplication where
  organizationName : String
  organizationDomain : String
  applicationName : String

structure ConfigFile where
  organization : String
  application : String
deriving DecidableEq, Repr

namespace CoreApplication

def configFile (core : CoreApplication) : ConfigFile := ⟨core.organizationName, core.applicationName⟩

def atLoad (exe : String) : CoreApplication := ⟨"", "", exe⟩

def named (core : CoreApplication) : CoreApplication :=
  { core with organizationName := "SEGS", organizationDomain := "segs.io", applicationName := "SEGSLauncher" }

/-- No program name makes the two stores one. -/
theorem atLoad_ne_named (exe : String) : (atLoad exe).configFile ≠ (atLoad exe).named.configFile := by
  intro h
  have horg : "" = "SEGS" := congrArg ConfigFile.organization h
  exact absurd horg (by decide)

end CoreApplication

/-- A `start_up` and what it found. -/
structure StartUp where
  onCompleted : Bool
  settings : Store
  lastLeft : Option Store
  configured : Bool
  fetched : Bool

structure Sessions where
  disk : ConfigFile → Store
  registry : Store
  running : Option App := none
  opened : List ConfigFile := []
  lastLeft : Option Store := none
  configured : Bool := false
  startUps : List StartUp := []

/-- What can happen while the event loop runs. -/
inductive Op where
  | finish (coxDir : String)
  | event (e : Event)
  | dispatch
  | launchCox
  | setLauncherGameSettings (settings : QVariantMap)

inductive SessionEvent where
  | main
  | loadFailed
  | op (op : Op)

/-- Whether a default-constructed `QSettings` is used. A selection uses one when the index changes. -/
def App.opensSettings (app : App) : Op → Bool
  | .finish _ | .dispatch | .launchCox => true
  | .setLauncherGameSettings _ => false
  | .event .startUp | .event .populateServerList | .event .getLastUsedServer => true
  | .event (.addToServerList _ _) | .event (.serversReply _) => true
  | .event (.select i) => app.currentIndex ≠ i
  | .event .fetchServerList | .event .serversReplyError | .event (.serverStatus _ _ _) => false

namespace Sessions

/-- The window as a handler finds it: over the store the names in force select. -/
def window (s : Sessions) (core : CoreApplication) (app : App) : App :=
  { app with stores := ⟨s.disk core.configFile, s.registry⟩ }

/-- The window as a handler leaves it. -/
def commit (s : Sessions) (core : CoreApplication) (app : App) : Sessions :=
  { s with disk := Function.update s.disk core.configFile app.stores.settings
           registry := app.stores.registry
           running := some app }

/-- A handler that used a default-constructed `QSettings`. -/
def commitOpened (s : Sessions) (core : CoreApplication) (app : App) : Sessions :=
  { s.commit core app with opened := s.opened ++ [core.configFile], lastLeft := some app.stores.settings }

def startUp (s : Sessions) (onCompleted : Bool) (core : CoreApplication) (app : App) : Sessions :=
  let found : StartUp :=
    { onCompleted := onCompleted, settings := app.stores.settings, lastLeft := s.lastLeft
      configured := s.configured
      fetched := app.fetchServerListFinished < (MainWindow.startUp app).fetchServerListFinished }
  { s.commitOpened core (MainWindow.startUp app) with startUps := s.startUps ++ [found] }

/-- `set_launcher_settings` of the setup screen: the settings are written, then `start_up` runs again. -/
def finish (s : Sessions) (toLocalFile : String → String) (core : CoreApplication) (coxDir : String) (app : App) :
    Sessions :=
  let launcherSettingsArray : QVariantMap := [("initial_config", .bool true), ("cox_dir", .string coxDir)]
  let app := { app with stores := { app.stores with
    settings := LauncherSetup.writeLauncherSettings toLocalFile launcherSettingsArray app.stores.settings } }
  { s.commitOpened core app with configured := true }.startUp false core app

def stepOp (s : Sessions) (toLocalFile : String → String) (core : CoreApplication) (app : App) :
    Op → Option Sessions
  | .finish coxDir => some (s.finish toLocalFile core coxDir app)
  | .event .startUp => some (s.startUp false core app)
  | .event e => (app.step e).map fun app' =>
      if app.opensSettings (.event e) then s.commitOpened core app' else s.commit core app'
  | .dispatch =>
    if 0 < app.getServerStatus then
      some (s.commitOpened core { app with getServerStatus := app.getServerStatus - 1 })
    else none
  | .launchCox => some (s.commitOpened core app)
  | .setLauncherGameSettings settings =>
    some (s.commit core { app with stores := { app.stores with
      registry := Launcher.setLauncherGameSettings settings app.stores.registry } })

def step (toLocalFile : String → String) (exe : String) (s : Sessions) : SessionEvent → Option Sessions
  | .main =>
    let core := CoreApplication.atLoad exe
    some (s.startUp true core (App.init ⟨s.disk core.configFile, s.registry⟩))
  | .loadFailed => some { s with running := none }
  | .op op =>
    let core := (CoreApplication.atLoad exe).named
    s.running.bind fun app => s.stepOp toLocalFile core (s.window core app) op

/-- Before the first launch, over any stores. -/
def init (disk : ConfigFile → Store) (registry : Store) : Sessions := { disk := disk, registry := registry }

end Sessions

/-- All parts of the program address one store; every `start_up` finds under every key what the last
operation on the settings left there; and once a session has saved `initial_config`, the first `start_up`
of every later session fetches the server list. -/
structure Persists (s : Sessions) : Prop where
  oneStore : ∀ f ∈ s.opened, ∀ f' ∈ s.opened, f = f'
  reads : ∀ u ∈ s.startUps, ∀ st, u.lastLeft = some st → ∀ k, u.settings.lookup k = st.lookup k
  fetches : ∀ u ∈ s.startUps, u.onCompleted = true → u.configured = true → u.fetched = true

/-- No operation of a running session uses a default-constructed `QSettings`. -/
def LeavesSettings (s : Sessions) : SessionEvent → Prop
  | .main | .loadFailed => True
  | .op op => ∀ app, s.running = some app → app.opensSettings op = false

/-! ## What a step does -/

section
variable {s t : Sessions} {toLocalFile : String → String} {exe : String} {core : CoreApplication}
  {app : App} {op : Op}

theorem startUp_stores (app : App) : (MainWindow.startUp app).stores = app.stores := by
  rcases startUp_cases app with h | ⟨x, y, f, h⟩
  · rw [h]
  · rw [h]
    rfl

/-- `InitialConfig`, as `start_up` reads it. -/
def initialConfigured (st : Store) : Bool :=
  ((st.lookup [seg "LauncherConfig", seg "InitialConfig"]).getD (.string "")).toBool

/-- `start_up` fetches the server list exactly when the setup is complete. -/
theorem startUp_fetches (app : App) :
    decide (app.fetchServerListFinished < (MainWindow.startUp app).fetchServerListFinished) =
      initialConfigured app.stores.settings := by
  rw [initialConfigured, ← LauncherSetup.readLauncherSettings_initialConfig]
  unfold MainWindow.startUp MainWindow.getLauncherSettings
  simp only
  split
  · rename_i hconfig
    rw [hconfig, decide_eq_true_iff]
    exact Nat.lt_succ_self _
  · rename_i hconfig
    rw [Bool.eq_false_iff.2 hconfig, decide_eq_false_iff_not]
    exact Nat.lt_irrefl _

/-- Without a default-constructed `QSettings` the settings stay as they are. -/
theorem step_stores_of_not_opens {e : Event} {app' : App} (h : app.step e = some app')
    (ho : app.opensSettings (.event e) = false) : app'.stores = app.stores := by
  cases step_handles h with
  | startUpSetup | startUpFetches | populateServerList | getLastUsedServer | addToServerList | serversReply =>
    cases ho
  | fetchServerList => rfl
  | serversReplyError hpos => rfl
  | serverStatus status server uptime =>
    exact (handleServerStatusWorker_reports status server uptime app).stores
  | @select i hi =>
    have hindex : app.currentIndex = i := by simpa [App.opensSettings] using ho
    rw [MainWindow.setCurrentIndex, if_pos hindex]

/-- What an operation of a running session can do. -/
inductive Operates (s : Sessions) (toLocalFile : String → String) (core : CoreApplication) (app : App) :
    Op → Sessions → Prop
  | finish (coxDir : String) : Operates s toLocalFile core app (.finish coxDir) (s.finish toLocalFile core coxDir app)
  | startUp : Operates s toLocalFile core app (.event .startUp) (s.startUp false core app)
  | opened {op : Op} (app' : App) (ho : app.opensSettings op = true) :
      Operates s toLocalFile core app op (s.commitOpened core app')
  | quiet {op : Op} (app' : App) (ho : app.opensSettings op = false)
      (hst : app'.stores.settings = app.stores.settings) : Operates s toLocalFile core app op (s.commit core app')

theorem stepOp_operates (h : s.stepOp toLocalFile core app op = some t) : Operates s toLocalFile core app op t := by
  cases op with
  | finish coxDir =>
    obtain rfl := Option.some.inj h
    exact .finish coxDir
  | launchCox =>
    obtain rfl := Option.some.inj h
    exact .opened app rfl
  | setLauncherGameSettings settings =>
    obtain rfl := Option.some.inj h
    exact .quiet _ rfl rfl
  | dispatch =>
    simp only [Sessions.stepOp, Option.ite_none_right_eq_some, Option.some.injEq] at h
    obtain ⟨_, rfl⟩ := h
    exact .opened _ rfl
  | event e =>
    cases e with
    | startUp =>
      obtain rfl := Option.some.inj h
      exact .startUp
    | _ =>
      simp only [Sessions.stepOp] at h
      obtain ⟨app', happ, rfl⟩ := Option.map_eq_some_iff.1 h
      split
      · rename_i ho
        exact .opened app' ho
      · rename_i ho
        have hquiet := Bool.eq_false_iff.2 ho
        exact .quiet app' hquiet (congrArg Stores.settings (step_stores_of_not_opens happ hquiet))

/-- A handler that uses no default-constructed `QSettings` leaves every store and every record of them. -/
structure Quiet (s t : Sessions) : Prop where
  disk : t.disk = s.disk
  opened : t.opened = s.opened
  lastLeft : t.lastLeft = s.lastLeft
  configured : t.configured = s.configured
  startUps : t.startUps = s.startUps

theorem quiet_commit (hst : app.stores.settings = s.disk core.configFile) : Quiet s (s.commit core app) where
  disk := by
    rw [Sessions.commit, hst]
    exact Function.update_eq_self _ _
  opened := rfl
  lastLeft := rfl
  configured := rfl
  startUps := rfl

theorem stepOp_quiet (h : s.stepOp toLocalFile core (s.window core app) op = some t)
    (ho : (s.window core app).opensSettings op = false) : Quiet s t := by
  cases stepOp_operates h with
  | finish | startUp => cases ho
  | opened app' ho' => exact absurd (ho'.symm.trans ho) (by decide)
  | quiet app' _ hst => exact quiet_commit hst

/-- A handler that uses one addresses the store of the names in force. -/
theorem stepOp_opened (h : s.stepOp toLocalFile core app op = some t) (ho : app.opensSettings op = true) :
    s.opened ++ [core.configFile] <+: t.opened := by
  cases stepOp_operates h with
  | finish coxDir => exact List.prefix_append _ _
  | startUp => exact List.prefix_rfl
  | opened app' _ => exact List.prefix_rfl
  | quiet app' ho' _ => exact absurd (ho'.symm.trans ho) (by decide)

/-- Only the store of the names in force is written. -/
theorem stepOp_disk (h : s.stepOp toLocalFile core app op = some t) {f : ConfigFile} (hf : f ≠ core.configFile) :
    t.disk f = s.disk f := by
  cases stepOp_operates h with
  | finish coxDir => exact (Function.update_of_ne hf _ _).trans (Function.update_of_ne hf _ _)
  | startUp | opened | quiet => exact Function.update_of_ne hf _ _

/-- Only `Component.onCompleted` runs the first `start_up` of a session. -/
theorem stepOp_startUps (h : s.stepOp toLocalFile core app op = some t) :
    ∀ u ∈ t.startUps, u.onCompleted = true → u ∈ s.startUps := by
  have later (s : Sessions) (app : App) :
      ∀ u ∈ (s.startUp false core app).startUps, u.onCompleted = true → u ∈ s.startUps := by
    intro u hu hfirst
    rcases List.mem_append.1 hu with hu | hu
    · exact hu
    · rw [List.mem_singleton.1 hu] at hfirst
      cases hfirst
  cases stepOp_operates h with
  | finish coxDir => exact later _ _
  | startUp => exact later _ _
  | opened | quiet => exact fun _ hu _ => hu

/-- `main` reads the store of the program's own name, and leaves it as it is. -/
structure Loads (exe : String) (s t : Sessions) : Prop where
  disk : t.disk = s.disk
  opened : t.opened = s.opened ++ [(CoreApplication.atLoad exe).configFile]
  lastLeft : t.lastLeft = some (s.disk (CoreApplication.atLoad exe).configFile)
  configured : t.configured = s.configured
  startUps : t.startUps = s.startUps ++ [⟨true, s.disk (CoreApplication.atLoad exe).configFile, s.lastLeft,
    s.configured, initialConfigured (s.disk (CoreApplication.atLoad exe).configFile)⟩]

theorem step_main (h : s.step toLocalFile exe .main = some t) : Loads exe s t := by
  obtain rfl := Option.some.inj h
  have hst := startUp_stores (App.init ⟨s.disk (CoreApplication.atLoad exe).configFile, s.registry⟩)
  have hfetched := startUp_fetches (App.init ⟨s.disk (CoreApplication.atLoad exe).configFile, s.registry⟩)
  refine ⟨?_, rfl, ?_, rfl, ?_⟩
  · exact (quiet_commit (by rw [hst]; rfl)).disk
  · exact congrArg (fun st : Stores => some st.settings) hst
  · simp only [Sessions.startUp, hfetched]
    rfl

theorem step_op (h : s.step toLocalFile exe (.op op) = some t) : ∃ app, s.running = some app ∧
    s.stepOp toLocalFile (CoreApplication.atLoad exe).named (s.window (CoreApplication.atLoad exe).named app) op =
      some t := by
  obtain ⟨app, hrun, happ⟩ := Option.bind_eq_some_iff.1 h
  exact ⟨app, hrun, happ⟩

end

/-! ## The store at load is never written -/

/-- What every launch finds, in terms of the stores before the first one. -/
structure LoadsInitial (exe : String) (initial : ConfigFile → Store) (s : Sessions) : Prop where
  disk : s.disk (CoreApplication.atLoad exe).configFile = initial (CoreApplication.atLoad exe).configFile
  startUps : ∀ u ∈ s.startUps, u.onCompleted = true →
    u.settings = initial (CoreApplication.atLoad exe).configFile ∧ u.fetched = initialConfigured u.settings

theorem loadsInitial_step {toLocalFile : String → String} {exe : String} {disk : ConfigFile → Store}
    {s t : Sessions} {e : SessionEvent} (h : s.step toLocalFile exe e = some t) (hi : LoadsInitial exe disk s) :
    LoadsInitial exe disk t := by
  cases e with
  | main =>
    have hload := step_main h
    refine ⟨by rw [hload.disk, hi.disk], ?_⟩
    intro u hu hfirst
    rw [hload.startUps] at hu
    rcases List.mem_append.1 hu with hu | hu
    · exact hi.startUps u hu hfirst
    · rw [List.mem_singleton.1 hu]
      exact ⟨hi.disk, rfl⟩
  | loadFailed =>
    obtain rfl := Option.some.inj h
    exact ⟨hi.disk, hi.startUps⟩
  | op op =>
    obtain ⟨app, _, happ⟩ := step_op h
    refine ⟨?_, fun u hu hfirst => ?_⟩
    · rw [stepOp_disk happ (CoreApplication.atLoad_ne_named exe)]
      exact hi.disk
    · exact hi.startUps u (stepOp_startUps happ u hu hfirst) hfirst

/-- Whatever the sessions save, `Component.onCompleted` finds what was there before the first of them, and
fetches the server list only if the setup was complete then. -/
theorem onCompleted_reads_initial (toLocalFile : String → String) (exe : String) (disk : ConfigFile → Store)
    (registry : Store) (events : List SessionEvent) :
    Runs.AllStates (Sessions.step toLocalFile exe) (LoadsInitial exe disk) (Sessions.init disk registry) events :=
  Runs.allStates_of_inv loadsInitial_step ⟨rfl, fun _ hu => (nomatch hu)⟩

/-! ## When the settings persist -/

/-- A session reads the store at load before anything else; as long as only that store was addressed, no
session has saved `initial_config`, and the store is as the last `start_up` left it. -/
structure SessionsInv (exe : String) (s : Sessions) : Prop where
  loaded : (s.running = none ∧ s.opened = []) ∨ (CoreApplication.atLoad exe).configFile ∈ s.opened
  unused : (∀ f ∈ s.opened, f = (CoreApplication.atLoad exe).configFile) → s.configured = false ∧
    ∀ st, s.lastLeft = some st → s.disk (CoreApplication.atLoad exe).configFile = st

theorem sessionsInv_init (exe : String) (disk : ConfigFile → Store) (registry : Store) :
    SessionsInv exe (Sessions.init disk registry) where
  loaded := .inl ⟨rfl, rfl⟩
  unused := fun _ => ⟨rfl, fun _ h => (nomatch h)⟩

section
variable {toLocalFile : String → String} {exe : String} {s t : Sessions}

theorem SessionsInv.running {app : App} (hi : SessionsInv exe s) (hrun : s.running = some app) :
    (CoreApplication.atLoad exe).configFile ∈ s.opened := by
  rcases hi.loaded with ⟨hnone, _⟩ | hload
  · rw [hnone] at hrun
    cases hrun
  · exact hload

theorem SessionsInv.quiet (hi : SessionsInv exe s) (hq : Quiet s t)
    (hload : (CoreApplication.atLoad exe).configFile ∈ s.opened) : SessionsInv exe t where
  loaded := .inr (hq.opened ▸ hload)
  unused := by
    rw [hq.opened, hq.configured, hq.lastLeft, hq.disk]
    exact hi.unused

/-- A second store has been addressed: nothing remains to be kept. -/
theorem sessionsInv_opened (hload : (CoreApplication.atLoad exe).configFile ∈ s.opened)
    (hop : s.opened ++ [(CoreApplication.atLoad exe).named.configFile] <+: t.opened) : SessionsInv exe t where
  loaded := .inr (hop.subset (List.mem_append_left _ hload))
  unused := fun hall => by
    have hnamed := hall _ (hop.subset (List.mem_append_right _ (List.mem_singleton_self _)))
    exact absurd hnamed.symm (CoreApplication.atLoad_ne_named exe)

theorem sessionsInv_step {e : SessionEvent} (h : s.step toLocalFile exe e = some t) (hi : SessionsInv exe s) :
    SessionsInv exe t := by
  cases e with
  | main =>
    have hload := step_main h
    refine ⟨.inr ?_, fun hall => ?_⟩
    · rw [hload.opened]
      exact List.mem_append_right _ (List.mem_singleton_self _)
    · have hs : ∀ f ∈ s.opened, f = (CoreApplication.atLoad exe).configFile := by
        intro f hf
        refine hall f ?_
        rw [hload.opened]
        exact List.mem_append_left _ hf
      refine ⟨hload.configured.trans (hi.unused hs).1, ?_⟩
      intro st hst
      rw [hload.lastLeft, Option.some.injEq] at hst
      rw [hload.disk, hst]
  | loadFailed =>
    obtain rfl := Option.some.inj h
    refine ⟨?_, hi.unused⟩
    rcases hi.loaded with ⟨_, hnil⟩ | hload
    · exact .inl ⟨rfl, hnil⟩
    · exact .inr hload
  | op op =>
    obtain ⟨app, hrun, happ⟩ := step_op h
    have hload := hi.running hrun
    cases ho : (s.window (CoreApplication.atLoad exe).named app).opensSettings op with
    | true => exact sessionsInv_opened hload (stepOp_opened happ ho)
    | false => exact hi.quiet (stepOp_quiet happ ho) hload

theorem Persists.opened_eq (hp : Persists s) (hi : SessionsInv exe s) :
    ∀ f ∈ s.opened, f = (CoreApplication.atLoad exe).configFile := by
  intro f hf
  rcases hi.loaded with ⟨_, hnil⟩ | hload
  · rw [hnil] at hf
    cases hf
  · exact hp.oneStore f hf _ hload

/-- A launch on the one store in use finds it as it was left, and nothing configured yet. -/
theorem persists_main (hi : SessionsInv exe s) (hp : Persists s) (hload : Loads exe s t) : Persists t := by
  have hs := hp.opened_eq hi
  have hopened : ∀ f ∈ t.opened, f = (CoreApplication.atLoad exe).configFile := by
    intro f hf
    rw [hload.opened] at hf
    rcases List.mem_append.1 hf with hf | hf
    · exact hs f hf
    · exact List.mem_singleton.1 hf
  obtain ⟨hconf, hleft⟩ := hi.unused hs
  have hups := hload.startUps
  refine ⟨fun f hf f' hf' => (hopened f hf).trans (hopened f' hf').symm, ?_, ?_⟩
  · intro u hu st hst k
    rw [hups] at hu
    rcases List.mem_append.1 hu with hu | hu
    · exact hp.reads u hu st hst k
    · rw [List.mem_singleton.1 hu] at hst ⊢
      rw [hleft st hst]
  · intro u hu hfirst hc
    rw [hups] at hu
    rcases List.mem_append.1 hu with hu | hu
    · exact hp.fetches u hu hfirst hc
    · rw [List.mem_singleton.1 hu] at hc
      exact absurd (hconf.symm.trans hc) (by decide)

theorem persists_step {e : SessionEvent} (h : s.step toLocalFile exe e = some t) (hi : SessionsInv exe s)
    (hp : Persists s) : Persists t ↔ LeavesSettings s e := by
  cases e with
  | main => exact iff_of_true (persists_main hi hp (step_main h)) trivial
  | loadFailed =>
    obtain rfl := Option.some.inj h
    exact iff_of_true ⟨hp.oneStore, hp.reads, hp.fetches⟩ trivial
  | op op =>
    obtain ⟨app, hrun, happ⟩ := step_op h
    have hleaves : LeavesSettings s (.op op) ↔ app.opensSettings op = false := by
      simp only [LeavesSettings, hrun, Option.some.injEq, forall_eq']
    rw [hleaves]
    cases ho : app.opensSettings op with
    | true =>
      refine iff_of_false (fun hpt => ?_) (by decide)
      have hop := stepOp_opened happ ho
      have hload := hop.subset (List.mem_append_left _ (hi.running hrun))
      have hnamed := hop.subset (List.mem_append_right _ (List.mem_singleton_self _))
      exact CoreApplication.atLoad_ne_named exe (hpt.oneStore _ hload _ hnamed)
    | false =>
      have hq := stepOp_quiet happ ho
      refine iff_of_true ⟨?_, ?_, ?_⟩ rfl
      · rw [hq.opened]
        exact hp.oneStore
      · rw [hq.startUps]
        exact hp.reads
      · rw [hq.startUps]
        exact hp.fetches

end

/-- **The settings persist over all sessions exactly when no session uses them after `engine.load`.** -/
theorem persists_iff (toLocalFile : String → String) (exe : String) (disk : ConfigFile → Store) (registry : Store)
    (events : List SessionEvent) :
    Runs.AllStates (Sessions.step toLocalFile exe) Persists (Sessions.init disk registry) events ↔
      Runs.AllSteps (Sessions.step toLocalFile exe) LeavesSettings (Sessions.init disk registry) events := by
  refine Runs.allStates_iff_allSteps sessionsInv_step persists_step (sessionsInv_init exe disk registry) ?_
  exact ⟨fun _ h => (nomatch h), fun _ h => (nomatch h), fun _ h => (nomatch h)⟩

/-- The setup is finished in one session; the next one starts and asks for the setup again. -/
theorem persists_fails_finish :
    ¬ Runs.AllStates
      (Sessions.step (fun url => String.ofList (url.toList.drop "file://".length)) "SEGSLauncher") Persists
      (Sessions.init (fun _ => ∅) ∅) [.main, .op (.finish "file:///home/hero/cox"), .main] := by
  intro h
  have hlast := (Runs.allStates_iff_run.1 h _ List.prefix_rfl _ rfl).fetches
  revert hlast
  decide

end SegsLauncher
