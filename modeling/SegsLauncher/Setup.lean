import SegsLauncher.Session
/-!
# The setup window, over any sessions (Setup.qml:27-134)

The directory lives in three places: `accepted` writes the field and the property of the window, typing the
field only, and `finish` saves the property, whatever it holds. The field and the property start empty when
the window is loaded, the store does not. So a Finish in a window where nothing was chosen saves the empty
directory over the one saved before, and still marks the setup complete.

| here | there |
| --- | --- |
| `SetupWindow`            | `textField_cox_dir.text` (`Setup.qml:63`) and `cox_dir` (`:27`) |
| `SetupWindow.accepted`   | `file_dialog_cox_dir.onAccepted` (`:113`) |
| `SetupWindow.textEdited` | the user types in `textField_cox_dir` |
| `Setup.item`             | `setupScreenLoader.item` (`MainWindow.qml:171`); `start_up` activates the loader either way |
| `SetupEvent.loaded`      | the window is loaded anew |
| `SetupEvent.finish`      | `set_launcher_settings` (`Setup.qml:127`); `setup.close()` hides the window, its item stays |

`chosen`, `chosenAtFinish` and `finishes` are not in the source. They record the directory chosen last in any
session, the same as it was at the last Finish, and what each Finish found and left.
-/
namespace SegsLauncher

structure SetupWindow where
  textFieldCoxDir : String := ""
  coxDir : String := ""

namespace SetupWindow

def accepted (selectedFiles : List String) (window : SetupWindow) : SetupWindow :=
  let url := selectedFiles.headD ""
  { window with textFieldCoxDir := url, coxDir := url }

def textEdited (text : String) (window : SetupWindow) : SetupWindow := { window with textFieldCoxDir := text }

end SetupWindow

/-- A Finish, with the stores around it. -/
structure Finish where
  before : Store
  after : Store
  chosenBefore : Option String
  chosen : Option String

structure Setup where
  sessions : Sessions
  item : Option SetupWindow := none
  chosen : Option String := none
  chosenAtFinish : Option String := none
  finishes : List Finish := []

/-- What can happen over the sessions. `op` is any other operation of a running session. -/
inductive SetupEvent where
  | main
  | loadFailed
  | loaded
  | accepted (selectedFiles : List String)
  | rejected
  | textEdited (text : String)
  | finish
  | op (op : Op)

namespace Setup

/-- The store that `set_launcher_settings` writes and every later operation of the session reads. -/
def settings (exe : String) (s : Setup) : Store := s.sessions.disk (CoreApplication.atLoad exe).named.configFile

def finished (exe : String) (s : Setup) (sessions : Sessions) : Setup :=
  let found : Finish :=
    { before := s.settings exe, after := sessions.disk (CoreApplication.atLoad exe).named.configFile
      chosenBefore := s.chosenAtFinish, chosen := s.chosen }
  { s with sessions := sessions, chosenAtFinish := s.chosen, finishes := s.finishes ++ [found] }

def step (toLocalFile : String → String) (exe : String) (s : Setup) : SetupEvent → Option Setup
  | .main => (s.sessions.step toLocalFile exe .main).map fun t => { s with sessions := t, item := some {} }
  | .loadFailed => (s.sessions.step toLocalFile exe .loadFailed).map fun t => { s with sessions := t, item := none }
  | .loaded => s.sessions.running.map fun _ => { s with item := some {} }
  | .accepted selectedFiles => s.item.map fun window =>
      { s with item := some (window.accepted selectedFiles), chosen := selectedFiles.head?.or s.chosen }
  | .rejected => s.item.map fun window => { s with item := some window }
  | .textEdited text => s.item.map fun window => { s with item := some (window.textEdited text) }
  | .finish => s.item.bind fun window =>
      (s.sessions.step toLocalFile exe (.op (.finish window.coxDir))).map (s.finished exe)
  -- Finish is pressed in the setup window only
  | .op (.finish _) => none
  | .op op => (s.sessions.step toLocalFile exe (.op op)).map fun t => { s with sessions := t }

/-- Before the first launch, over any stores. -/
def init (disk : ConfigFile → Store) (registry : Store) : Setup := { sessions := Sessions.init disk registry }

end Setup

/-- `CoxDir`, as it is saved. -/
def savedCoxDir (st : Store) : Option QVariant := st.lookup [seg "LauncherConfig", seg "CoxDir"]

/-- A setup marked complete has saved the local path, not empty, of the directory chosen last before the last
Finish; and a Finish after a complete setup, with nothing chosen in between, has left the directory. -/
structure SetupComplete (toLocalFile : String → String) (exe : String) (s : Setup) : Prop where
  saved : initialConfigured (s.settings exe) = true → ∃ url, s.chosenAtFinish = some url ∧
    savedCoxDir (s.settings exe) = some (.string (toLocalFile url)) ∧ toLocalFile url ≠ ""
  kept : ∀ f ∈ s.finishes, initialConfigured f.before = true → f.chosen = f.chosenBefore →
    savedCoxDir f.after = savedCoxDir f.before

/-- Finish is pressed in a window whose `cox_dir` has a local path. -/
def FinishesChosen (toLocalFile : String → String) (s : Setup) : SetupEvent → Prop
  | .finish => ∀ window ∈ s.item, toLocalFile window.coxDir ≠ ""
  | _ => True

/-! ## Only Finish writes the two keys -/

section
variable {s t : Sessions} {toLocalFile : String → String} {core : CoreApplication} {app : App}

theorem step_launcherConfig {app app' : App} {e : Event} (h : app.step e = some app') {key : List Segment}
    (hkey : Location.settings key ∈ Region.launcherConfig.locations) :
    app'.stores.settings.lookup key = app.stores.settings.lookup key := by
  have hout {i : Region} (hi : Region.launcherConfig ≠ i) : Location.settings key ∉ i.locations :=
    Set.disjoint_left.1 (Region.disjoint _ i hi) hkey
  exact step_get h (hout (by decide)) (hout (by decide)) (hout (by decide))

theorem commit_settings (s : Sessions) (core : CoreApplication) (app : App) :
    (s.commit core app).disk core.configFile = app.stores.settings := Function.update_self _ _ _

theorem stepOp_launcherConfig {op : Op} (h : s.stepOp toLocalFile core (s.window core app) op = some t)
    (hop : ∀ coxDir, op ≠ .finish coxDir) {key : List Segment}
    (hkey : Location.settings key ∈ Region.launcherConfig.locations) :
    (t.disk core.configFile).lookup key = (s.disk core.configFile).lookup key := by
  have hsame (app' : App) (hst : app'.stores.settings.lookup key = (s.disk core.configFile).lookup key) :
      ((s.commit core app').disk core.configFile).lookup key = (s.disk core.configFile).lookup key := by
    rw [commit_settings]
    exact hst
  cases op with
  | finish coxDir => exact absurd rfl (hop coxDir)
  | launchCox | setLauncherGameSettings settings =>
    obtain rfl := Option.some.inj h
    exact hsame _ rfl
  | dispatch =>
    simp only [Sessions.stepOp, Option.ite_none_right_eq_some, Option.some.injEq] at h
    obtain ⟨_, rfl⟩ := h
    exact hsame _ rfl
  | event e =>
    cases e with
    | startUp =>
      obtain rfl := Option.some.inj h
      refine hsame _ ?_
      rw [startUp_stores]
      rfl
    | _ =>
      simp only [Sessions.stepOp] at h
      obtain ⟨app', happ, rfl⟩ := Option.map_eq_some_iff.1 h
      have hst := step_launcherConfig happ hkey
      split
      · exact hsame app' hst
      · exact hsame app' hst

/-- Finish saves both keys, and `start_up` leaves them. -/
theorem finish_settings (s : Sessions) (toLocalFile : String → String) (core : CoreApplication) (coxDir : String)
    (app : App) : (s.finish toLocalFile core coxDir app).disk core.configFile =
      LauncherSetup.writeLauncherSettings toLocalFile [("initial_config", .bool true), ("cox_dir", .string coxDir)]
        app.stores.settings := by
  refine (commit_settings _ core _).trans ?_
  rw [startUp_stores]

end

/-! ## When the setup is complete -/

/-- The window holds nothing, or the directory chosen last in any session. -/
def SetupInv (s : Setup) : Prop := ∀ window ∈ s.item, window.coxDir = "" ∨ s.chosen = some window.coxDir

/-- What no event other than Finish changes. -/
structure KeepsSetup (exe : String) (s t : Setup) : Prop where
  lookup : ∀ key, Location.settings key ∈ Region.launcherConfig.locations →
    (t.settings exe).lookup key = (s.settings exe).lookup key
  chosenAtFinish : t.chosenAtFinish = s.chosenAtFinish
  finishes : t.finishes = s.finishes

/-- What an event can do to the setup. -/
inductive Sets (toLocalFile : String → String) (exe : String) (s : Setup) : SetupEvent → Setup → Prop
  | fresh {e : SetupEvent} {t : Setup} (he : e ≠ .finish) (hkeeps : KeepsSetup exe s t)
      (hfresh : ∀ window ∈ t.item, window.coxDir = "") : Sets toLocalFile exe s e t
  | same {e : SetupEvent} {t : Setup} (he : e ≠ .finish) (hkeeps : KeepsSetup exe s t)
      (hchosen : t.chosen = s.chosen)
      (hitem : ∀ window ∈ t.item, ∃ window' ∈ s.item, window.coxDir = window'.coxDir) : Sets toLocalFile exe s e t
  | chosen (url : String) (selectedFiles : List String) : Sets toLocalFile exe s (.accepted (url :: selectedFiles))
      { s with item := some { textFieldCoxDir := url, coxDir := url }, chosen := some url }
  | finish {window : SetupWindow} (hwindow : window ∈ s.item) {sessions : Sessions} {st : Store}
      (hsessions : sessions.disk (CoreApplication.atLoad exe).named.configFile =
        LauncherSetup.writeLauncherSettings toLocalFile
          [("initial_config", .bool true), ("cox_dir", .string window.coxDir)] st) :
      Sets toLocalFile exe s .finish (s.finished exe sessions)

section
variable {s t : Setup} {toLocalFile : String → String} {exe : String} {e : SetupEvent}

theorem keepsSetup_item (exe : String) (s : Setup) (item : Option SetupWindow) (chosen : Option String) :
    KeepsSetup exe s { s with item := item, chosen := chosen } := ⟨fun _ _ => rfl, rfl, rfl⟩

theorem keepsSetup_op {op : Op} {sessions : Sessions} (hop : ∀ coxDir, op ≠ .finish coxDir)
    (h : s.sessions.step toLocalFile exe (.op op) = some sessions) :
    KeepsSetup exe s { s with sessions := sessions } := by
  obtain ⟨app, _, happ⟩ := step_op h
  exact ⟨fun key hkey => stepOp_launcherConfig happ hop hkey, rfl, rfl⟩

theorem step_sets (h : s.step toLocalFile exe e = some t) : Sets toLocalFile exe s e t := by
  cases e with
  | main =>
    simp only [Setup.step] at h
    obtain ⟨sessions, hmain, rfl⟩ := Option.map_eq_some_iff.1 h
    refine .fresh (by simp) ⟨fun key _ => ?_, rfl, rfl⟩ ?_
    · simp only [Setup.settings, (step_main hmain).disk]
    · rintro window ⟨⟩
      rfl
  | loadFailed =>
    obtain rfl := Option.some.inj h
    exact .fresh (by simp) ⟨fun _ _ => rfl, rfl, rfl⟩ (fun window hwindow => (nomatch hwindow))
  | loaded =>
    obtain ⟨app, _, rfl⟩ := Option.map_eq_some_iff.1 h
    refine .fresh (by simp) (keepsSetup_item exe s _ _) ?_
    rintro window ⟨⟩
    rfl
  | accepted selectedFiles =>
    obtain ⟨window, hwindow, rfl⟩ := Option.map_eq_some_iff.1 h
    cases selectedFiles with
    | nil =>
      refine .fresh (by simp) (keepsSetup_item exe s _ _) ?_
      rintro window ⟨⟩
      rfl
    | cons url selectedFiles => exact .chosen url selectedFiles
  | rejected =>
    obtain ⟨window, hwindow, rfl⟩ := Option.map_eq_some_iff.1 h
    refine .same (by simp) (keepsSetup_item exe s _ _) rfl ?_
    rintro window' ⟨⟩
    exact ⟨window, hwindow, rfl⟩
  | textEdited text =>
    obtain ⟨window, hwindow, rfl⟩ := Option.map_eq_some_iff.1 h
    refine .same (by simp) (keepsSetup_item exe s _ _) rfl ?_
    rintro window' ⟨⟩
    exact ⟨window, hwindow, rfl⟩
  | finish =>
    obtain ⟨window, hwindow, hfinish⟩ := Option.bind_eq_some_iff.1 h
    obtain ⟨sessions, hstep, rfl⟩ := Option.map_eq_some_iff.1 hfinish
    obtain ⟨app, _, happ⟩ := step_op hstep
    obtain rfl := Option.some.inj happ
    exact .finish hwindow (finish_settings _ _ _ _ _)
  | op op =>
    cases op with
    | finish coxDir => cases h
    | event | dispatch | launchCox | setLauncherGameSettings =>
      obtain ⟨sessions, hstep, rfl⟩ := Option.map_eq_some_iff.1 h
      refine .same (by simp) (keepsSetup_op (by simp) hstep) rfl ?_
      intro window hwindow
      exact ⟨window, hwindow, rfl⟩

theorem setupInv_step (h : s.step toLocalFile exe e = some t) (hi : SetupInv s) : SetupInv t := by
  cases step_sets h with
  | fresh _ _ hfresh => exact fun window hwindow => .inl (hfresh window hwindow)
  | same _ _ hchosen hitem =>
    intro window hwindow
    obtain ⟨window', hwindow', hcoxDir⟩ := hitem window hwindow
    rw [hchosen, hcoxDir]
    exact hi window' hwindow'
  | chosen =>
    rintro window ⟨⟩
    exact .inr rfl
  | finish => exact hi

theorem KeepsSetup.setupComplete (hk : KeepsSetup exe s t) (hp : SetupComplete toLocalFile exe s) :
    SetupComplete toLocalFile exe t where
  saved := by
    have hcoxDir : savedCoxDir (t.settings exe) = savedCoxDir (s.settings exe) := hk.lookup _ (.inr rfl)
    have hconfig : initialConfigured (t.settings exe) = initialConfigured (s.settings exe) := by
      rw [initialConfigured, initialConfigured, hk.lookup _ (.inl rfl)]
    rw [hconfig, hcoxDir, hk.chosenAtFinish]
    exact hp.saved
  kept := by
    rw [hk.finishes]
    exact hp.kept

/-- A Finish keeps the setup complete exactly when the window's `cox_dir` has a local path. -/
theorem setupComplete_finished (hempty : toLocalFile "" = "") (hi : SetupInv s)
    (hp : SetupComplete toLocalFile exe s) {window : SetupWindow} (hwindow : window ∈ s.item) {sessions : Sessions}
    {st : Store} (hsessions : sessions.disk (CoreApplication.atLoad exe).named.configFile =
      LauncherSetup.writeLauncherSettings toLocalFile
        [("initial_config", .bool true), ("cox_dir", .string window.coxDir)] st) :
    SetupComplete toLocalFile exe (s.finished exe sessions) ↔ toLocalFile window.coxDir ≠ "" := by
  obtain ⟨hconfig, hcoxDir⟩ := LauncherSetup.writeLauncherSettings_saved toLocalFile
    [("initial_config", .bool true), ("cox_dir", .string window.coxDir)] st
  rw [← hsessions] at hconfig hcoxDir
  have hsaved : savedCoxDir ((s.finished exe sessions).settings exe) =
      some (.string (toLocalFile window.coxDir)) := hcoxDir
  have hconfigured : initialConfigured ((s.finished exe sessions).settings exe) = true :=
    congrArg (fun v : Option QVariant => (v.getD (.string "")).toBool) hconfig
  constructor
  · intro ht
    obtain ⟨url, _, hurl, hne⟩ := ht.saved hconfigured
    rw [hsaved, Option.some.injEq, QVariant.string.injEq] at hurl
    rw [hurl]
    exact hne
  · intro hne
    have hchosen : s.chosen = some window.coxDir := by
      refine (hi window hwindow).resolve_left ?_
      intro h
      exact hne (h ▸ hempty)
    refine ⟨fun _ => ⟨window.coxDir, hchosen, hsaved, hne⟩, ?_⟩
    intro f hf hbefore hnothing
    rcases List.mem_append.1 hf with hf | hf
    · exact hp.kept f hf hbefore hnothing
    · -- this Finish: the directory saved before is the one chosen last, and so the window's
      rw [List.mem_singleton.1 hf] at hbefore hnothing ⊢
      obtain ⟨url, hlast, hurl, _⟩ := hp.saved hbefore
      have hsame : some window.coxDir = some url := hchosen.symm.trans (hnothing.trans hlast)
      rw [Option.some.inj hsame] at hsaved
      exact hsaved.trans hurl.symm

theorem setupComplete_step (hempty : toLocalFile "" = "") (h : s.step toLocalFile exe e = some t) (hi : SetupInv s)
    (hp : SetupComplete toLocalFile exe s) : SetupComplete toLocalFile exe t ↔ FinishesChosen toLocalFile s e := by
  have hother (he : e ≠ .finish) : FinishesChosen toLocalFile s e := by
    cases e with
    | finish => exact absurd rfl he
    | _ => trivial
  cases step_sets h with
  | fresh he hkeeps | same he hkeeps => exact iff_of_true (hkeeps.setupComplete hp) (hother he)
  | chosen => exact iff_of_true ((keepsSetup_item exe s _ _).setupComplete hp) trivial
  | finish hwindow hsessions =>
    have honly : FinishesChosen toLocalFile s .finish ↔ toLocalFile _ ≠ "" :=
      ⟨fun hall => hall _ hwindow, fun hne window' hwindow' => Option.mem_unique hwindow hwindow' ▸ hne⟩
    rw [honly]
    exact setupComplete_finished hempty hi hp hwindow hsessions

end

/-- **The setup is complete only with the chosen directory**, in every state of a run that starts before the
first Finish, exactly when every Finish finds a local path in the window's `cox_dir`. -/
theorem setupComplete_iff (toLocalFile : String → String) (hempty : toLocalFile "" = "") (exe : String)
    (disk : ConfigFile → Store) (registry : Store)
    (hnew : initialConfigured (disk (CoreApplication.atLoad exe).named.configFile) = false)
    (events : List SetupEvent) :
    Runs.AllStates (Setup.step toLocalFile exe) (SetupComplete toLocalFile exe) (Setup.init disk registry) events ↔
      Runs.AllSteps (Setup.step toLocalFile exe) (FinishesChosen toLocalFile) (Setup.init disk registry) events := by
  refine Runs.allStates_iff_allSteps setupInv_step (setupComplete_step hempty) ?_ ⟨?_, ?_⟩
  · exact fun _ hwindow => (nomatch hwindow)
  · intro hconfig
    exact absurd (hnew.symm.trans hconfig) (by decide)
  · exact fun _ hf => (nomatch hf)

instance (toLocalFile : String → String) (s : Setup) : ∀ e, Decidable (FinishesChosen toLocalFile s e)
  | .finish => inferInstanceAs (Decidable (∀ window ∈ s.item, toLocalFile window.coxDir ≠ ""))
  | .main | .loadFailed | .loaded | .accepted _ | .rejected | .textEdited _ | .op _ => isTrue trivial

/-- Chosen twice, typed over and finished; the next session closes the window without a Finish. -/
theorem setupComplete_iff_chosen :
    Runs.AllStates (Setup.step LauncherSetup.fileUrlPath "SEGSLauncher")
      (SetupComplete LauncherSetup.fileUrlPath "SEGSLauncher") (Setup.init (fun _ => ∅) ∅)
      [.main, .accepted ["file:///home/hero"], .accepted ["file:///home/hero/cox"], .textEdited "/tmp", .finish,
       .main, .rejected] :=
  (setupComplete_iff LauncherSetup.fileUrlPath (by decide) "SEGSLauncher" (fun _ => ∅) ∅ (by decide) _).2
    (by decide +kernel)

/-- The next session finishes the setup again with nothing chosen, and the directory is gone. -/
theorem setup_fails_later_finish :
    ¬ Runs.AllStates (Setup.step LauncherSetup.fileUrlPath "SEGSLauncher")
      (SetupComplete LauncherSetup.fileUrlPath "SEGSLauncher") (Setup.init (fun _ => ∅) ∅)
      [.main, .accepted ["file:///home/hero/cox"], .finish, .main, .finish] := by
  intro h
  have hkept := (Runs.allStates_iff_run.1 h _ List.prefix_rfl _ rfl).kept
  revert hkept
  decide +kernel

end SegsLauncher
