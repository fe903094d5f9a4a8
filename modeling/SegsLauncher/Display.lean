import SegsLauncher.Selection
import SegsLauncher.ServerInformation
import SegsLauncher.ServerList
/-!
# What the window shows of the selected server

The icon in the combo box, the status label and the information text are written by handlers, each at its
own time, and never bound to the selected row. `Describes` says how far the first two agree with it all the
same, `Informed` what the third one said when it was written.

| here | there |
| --- | --- |
| `statusLabel`    | the text and colour of `label_online` for a known status (`MainWindow.qml:1353-1363`) |
| `About`          | what `server_info_text` is to say of a server of that name (`:1392-1410`) |

A row whose status is not known yet leaves the label as it is: then it is still the label of the row that was
selected before. That rests on what `MainWindow` assumes of Qt: a role that is not set on a row reads as
`undefined` (`:1353`), not as the `false` of its type. The information text is not written again when the records
are saved anew while the index stays.
-/
namespace SegsLauncher

open Launcher MainWindow

def statusLabel (status : Bool) (uptime : Option String) : String × String :=
  if status then ("Online for " ++ uptime.getD "undefined" ++ " days", "green")
  else ("Offline / Unknown Status", "#999999")

/-- The text is that of the first record of the name. -/
def About (servers : List ServerInfo) (serverName text : String) : Prop :=
  match servers.find? fun info => serverName = info.serverName with
  | some info => text = informationText info
  | none => text = if servers.isEmpty then "" else "No server information available"

/-- The icon and the label agree with the selected row, and an information text has records behind it. -/
structure Describes (app : App) : Prop where
  icon : ∀ row, app.row app.currentIndex = some row →
    app.comboBoxServerSelectContentImg = row.comboBoxServerSelectSvg
  label : ∀ row, app.row app.currentIndex = some row → ∀ status, row.serverStatus = some status →
    (app.labelOnlineText, app.labelOnlineColor) = statusLabel status row.serverUptime
  known : app.serverInfoText ≠ "" → getServerInformation app.stores.settings ≠ []

/-- The information text is about the selected row, by the records as they are saved now. -/
def Informed (app : App) : Prop :=
  ∀ row, app.row app.currentIndex = some row →
    About (getServerInformation app.stores.settings) row.serverName app.serverInfoText

/-- The selection has stayed: its index, its name and the information text are the same. -/
structure Stays (app app' : App) : Prop where
  currentIndex : app'.currentIndex = app.currentIndex
  serverName : (app'.row app'.currentIndex).map Row.serverName = (app.row app.currentIndex).map Row.serverName
  serverInfoText : app'.serverInfoText = app.serverInfoText

theorem Stays.refl (app : App) : Stays app app := ⟨rfl, rfl, rfl⟩

theorem Stays.trans {a b c : App} (h : Stays a b) (h' : Stays b c) : Stays a c where
  currentIndex := h'.currentIndex.trans h.currentIndex
  serverName := h'.serverName.trans h.serverName
  serverInfoText := h'.serverInfoText.trans h.serverInfoText

theorem Stays.row {app app' : App} (h : Stays app app') {row' : Row} (hrow : app'.row app'.currentIndex = some row') :
    ∃ row, app.row app.currentIndex = some row ∧ row.serverName = row'.serverName := by
  have hname := h.serverName
  rw [hrow, Option.map_some, eq_comm, Option.map_eq_some_iff] at hname
  exact hname

/-- As long as the records stay too, the text is up to date. -/
theorem Informed.of_stays {app app' : App} (h : Informed app) (hs : Stays app app')
    (hr : getServerInformation app'.stores.settings = getServerInformation app.stores.settings) : Informed app' := by
  intro row' hrow'
  obtain ⟨row, hrow, hname⟩ := hs.row hrow'
  rw [hr, hs.serverInfoText, ← hname]
  exact h row hrow

/-- What the handlers of one event keep to, once the event has saved its records. -/
structure Accords (old app : App) : Prop extends Describes app where
  servers : getServerInformation app.stores.settings = getServerInformation old.stores.settings
  text : Stays old app ∨ Informed app

theorem Describes.accords {app : App} (h : Describes app) : Accords app app := ⟨h, rfl, .inl (.refl app)⟩

/-- The selection stays in a handler, and the icon and the label are right after it. -/
theorem Accords.stays {old app app' : App} (h : Accords old app) (hs : Stays app app')
    (hr : getServerInformation app'.stores.settings = getServerInformation app.stores.settings)
    (hicon : ∀ row, app'.row app'.currentIndex = some row →
      app'.comboBoxServerSelectContentImg = row.comboBoxServerSelectSvg)
    (hlabel : ∀ row, app'.row app'.currentIndex = some row → ∀ status, row.serverStatus = some status →
      (app'.labelOnlineText, app'.labelOnlineColor) = statusLabel status row.serverUptime) : Accords old app' := by
  refine ⟨⟨hicon, hlabel, ?_⟩, hr.trans h.servers, ?_⟩
  · rw [hs.serverInfoText, hr]
    exact h.known
  · rcases h.text with hold | hinformed
    · exact .inl (hold.trans hs)
    · exact .inr (hinformed.of_stays hs hr)

/-! ## Saves elsewhere keep the community records -/

theorem infoAt_congr {p : List Segment} {st st' : Store} {g : Segment}
    (h : ∀ f, st'.lookup (p ++ [g] ++ [f]) = st.lookup (p ++ [g] ++ [f])) : infoAt p st' g = infoAt p st g := by
  unfold infoAt fieldAt
  rw [h, h, h]

theorem getServerInformation_congr {st st' : Store}
    (h : ∀ k, st'.lookup (communityServers ++ k) = st.lookup (communityServers ++ k)) :
    getServerInformation st' = getServerInformation st := by
  have hinfo : infoAt communityServers st' = infoAt communityServers st := by
    funext g
    apply infoAt_congr
    intro f
    rw [List.append_assoc]
    exact h _
  rw [getServerInformation_eq, getServerInformation_eq, hinfo, groupsOf_congr h]

theorem setServer_keeps_information (serverName serverIp : String) (stores : Stores) :
    getServerInformation (Launcher.setServer (serverObj serverName serverIp) stores).settings =
      getServerInformation stores.settings := by
  apply getServerInformation_congr
  intro k
  exact setServer_get _ _ (.settings (communityServers ++ k)) (by simp [Region.locations, communityServers])

/-- A reply takes no record away. -/
theorem saveServersReply_keeps_some {jsonResponse : Document} {st : Store} (h : getServerInformation st ≠ []) :
    getServerInformation (saveServersReply jsonResponse st) ≠ [] := by
  rw [getServerInformation_eq, ne_eq, List.map_eq_nil_iff] at h ⊢
  obtain ⟨g, hg⟩ := List.exists_mem_of_ne_nil _ h
  have hg' : g ∈ groupsOf communityServers (saveServersReply jsonResponse st) :=
    mem_groupsOf.2 (mem_childGroups_saveServersReply.2 (.inl (mem_groupsOf.1 hg)))
  exact List.ne_nil_of_mem hg'

/-! ## The texts about one row -/

/-- The loop shows the first record of the name, and with no record at all it leaves the text alone. -/
theorem findServerInformation_about {serverName : String} : ∀ {servers : List ServerInfo} {text : String},
    (servers = [] → text = "") → About servers serverName (findServerInformation serverName servers text)
  | [], _, h => h rfl
  | info :: servers, text, _ => by
    by_cases hname : serverName = info.serverName
    · simp [About, findServerInformation, hname, informationText]
    · have ih := @findServerInformation_about serverName servers
      cases servers with
      | nil => simp [About, findServerInformation, hname]
      | cons next servers =>
        have hrest := @ih "No server information available" fun h => absurd h (List.cons_ne_nil _ _)
        rw [findServerInformation, if_neg hname]
        simpa [About, List.find?_cons, hname] using hrest

/-- What a refresh leaves of the texts. -/
theorem refreshStatusText_shows {app app' : App} (h : refreshStatusText app = some app') :
    ∃ row, app.row app.currentIndex = some row ∧
      app'.comboBoxServerSelectContentImg = row.comboBoxServerSelectSvg ∧
      (∀ status, row.serverStatus = some status →
        (app'.labelOnlineText, app'.labelOnlineColor) = statusLabel status row.serverUptime) ∧
      app'.serverInfoText = app.serverInfoText := by
  unfold refreshStatusText at h
  cases hrow : app.row app.currentIndex with
  | none => simp [hrow] at h
  | some row =>
    rw [hrow] at h
    simp only [Option.some.injEq] at h
    subst h
    refine ⟨row, rfl, rfl, ?_, ?_⟩
    · intro status hstatus
      rw [hstatus]
      cases status with
      | true => rfl
      | false => rfl
    · cases row.serverStatus with
      | none => rfl
      | some status =>
        cases status with
        | true => rfl
        | false => rfl

/-- The handler of an index change brings the three texts up to the new row. -/
theorem onCurrentIndexChanged_shows {app : App} {row : Row} (hrow : app.row app.currentIndex = some row) :
    let app' := onCurrentIndexChanged app
    app'.comboBoxServerSelectContentImg = row.comboBoxServerSelectSvg ∧
      (∀ status, row.serverStatus = some status →
        (app'.labelOnlineText, app'.labelOnlineColor) = statusLabel status row.serverUptime) ∧
      app'.serverInfoText =
        findServerInformation row.serverName (getServerInformation app'.stores.settings) app.serverInfoText := by
  intro app'
  have happ : app' = onCurrentIndexChanged app := rfl
  unfold onCurrentIndexChanged MainWindow.setServer at happ
  rw [hrow] at happ
  simp only at happ
  have hrow₁ : ({ app with stores := Launcher.setServer (serverObj row.serverName row.serverIp) app.stores } : App).row
      app.currentIndex = some row := hrow
  cases href : refreshStatusText
      { app with stores := Launcher.setServer (serverObj row.serverName row.serverIp) app.stores } with
  | none =>
    have hsome := refreshStatusText_isSome
      { app with stores := Launcher.setServer (serverObj row.serverName row.serverIp) app.stores }
    rw [href, hrow₁] at hsome
    cases hsome
  | some app₁ =>
    obtain ⟨hsel₁, hidx₁, hstores₁⟩ := refreshStatusText_spec _ app₁ href
    obtain ⟨row', hrow', hicon, hlabel, hinfo⟩ := refreshStatusText_shows href
    obtain rfl : row = row' := Option.some.inj (hrow₁.symm.trans hrow')
    have hrow₂ : app₁.row app₁.currentIndex = some row := by
      rw [hidx₁, hsel₁.row]
      exact hrow₁
    rw [href] at happ
    simp only [hrow₂] at happ
    rw [happ]
    refine ⟨hicon, hlabel, ?_⟩
    simp only [MainWindow.getServerInformation, hinfo]

/-! ## The operations -/

theorem describes_init (stores : Stores) : Describes (App.init stores) where
  icon := fun _ h => nomatch h
  label := fun _ h => nomatch h
  known := fun h => absurd rfl h

theorem Accords.congr {old app app' : App} (h : Accords old app) (hi : app'.currentIndex = app.currentIndex)
    (hrow : app'.row app'.currentIndex = app.row app.currentIndex)
    (hicon : app'.comboBoxServerSelectContentImg = app.comboBoxServerSelectContentImg)
    (htext : app'.labelOnlineText = app.labelOnlineText) (hcolor : app'.labelOnlineColor = app.labelOnlineColor)
    (hinfo : app'.serverInfoText = app.serverInfoText)
    (hr : getServerInformation app'.stores.settings = getServerInformation app.stores.settings) :
    Accords old app' := by
  refine h.stays ⟨hi, by rw [hrow], hinfo⟩ hr ?_ ?_
  · intro row hrow'
    rw [hicon]
    exact h.icon row (hrow ▸ hrow')
  · intro row hrow'
    rw [htext, hcolor]
    exact h.label row (hrow ▸ hrow')

/-- Rows may be appended. -/
theorem row_extend {app app' : App} (hd : Displayed app) (hi : app'.currentIndex = app.currentIndex)
    (hrows : app.serverListModel <+: app'.serverListModel) :
    app'.row app'.currentIndex = app.row app.currentIndex := by
  rw [hi]
  by_cases hneg : app.currentIndex < 0
  · rw [App.row, App.row, if_pos hneg, if_pos hneg]
  · obtain ⟨row, hrow, -⟩ := hd (by omega)
    obtain ⟨i, hi'⟩ := Int.eq_ofNat_of_zero_le (Int.not_lt.1 hneg)
    rw [hi', row_nat] at hrow ⊢
    obtain ⟨rest, hrest⟩ := hrows
    rw [row_nat, ← hrest, List.getElem?_append_left (List.getElem?_eq_some_iff.1 hrow).1]

theorem Accords.setCurrentIndex {old app : App} (h : Accords old app) {i : Nat} (hi : i < app.serverListModel.length) :
    Accords old (setCurrentIndex i app) := by
  by_cases hcur : app.currentIndex = i
  · rw [MainWindow.setCurrentIndex, if_pos hcur]
    exact h
  · rw [MainWindow.setCurrentIndex, if_neg hcur]
    have hrow : ({ app with currentIndex := i } : App).row i = some app.serverListModel[i] := by
      rw [row_nat]
      exact List.getElem?_eq_getElem hi
    obtain ⟨hicon, hlabel, hinfo⟩ := onCurrentIndexChanged_shows hrow
    obtain ⟨hsel, hidx, hstores⟩ := onCurrentIndexChanged_spec { app with currentIndex := i }
    simp only [hrow] at hstores
    have hsame : ∀ row, (onCurrentIndexChanged { app with currentIndex := i }).row
        (onCurrentIndexChanged { app with currentIndex := i }).currentIndex = some row →
          row = app.serverListModel[i] := by
      intro row hr
      rw [hidx, hsel.row, hrow, Option.some.injEq] at hr
      exact hr.symm
    have hservers : getServerInformation (onCurrentIndexChanged { app with currentIndex := i }).stores.settings =
        getServerInformation app.stores.settings := by
      rw [hstores]
      exact setServer_keeps_information _ _ app.stores
    -- with no record saved nothing has been shown yet
    have hempty : getServerInformation app.stores.settings = [] → app.serverInfoText = "" := by
      intro hnil
      by_contra hne
      exact h.known hne hnil
    refine ⟨⟨?_, ?_, ?_⟩, hservers.trans h.servers, .inr ?_⟩
    · intro row hr
      rw [hsame row hr]
      exact hicon
    · intro row hr
      rw [hsame row hr]
      exact hlabel
    · intro hne hnil
      rw [hinfo, hnil] at hne
      exact hne (hempty (hservers ▸ hnil))
    · intro row hr
      rw [hsame row hr, hinfo]
      exact findServerInformation_about fun hnil => hempty (hservers ▸ hnil)

theorem Accords.selectLastUsed (serverName : String) : ∀ (is : List Nat) {old app : App}, Accords old app →
    (∀ i ∈ is, i < app.serverListModel.length) → Accords old (selectLastUsed serverName is app)
  | [], _, _, h, _ => h
  | i :: is, old, app, h, his => by
    have hi : i < app.serverListModel.length := his i List.mem_cons_self
    have hrest : ∀ j (app' : App), Selects app app' → j ∈ is → j < app'.serverListModel.length := by
      intro j app' hsel hj
      rw [hsel.serverListModel]
      exact his j (List.mem_cons_of_mem _ hj)
    rw [MainWindow.selectLastUsed]
    split
    · exact (h.setCurrentIndex hi).selectLastUsed serverName is
        fun j hj => hrest j _ (setCurrentIndex_selects _ _) hj
    · have hzero : 0 < app.serverListModel.length := by omega
      exact (h.setCurrentIndex hzero).selectLastUsed serverName is
        fun j hj => hrest j _ (setCurrentIndex_selects _ _) hj

theorem Accords.getLastUsedServer {old app : App} (h : Accords old app) : Accords old (getLastUsedServer app) := by
  unfold MainWindow.getLastUsedServer
  have hsel := h.selectLastUsed (Launcher.getLastUsedServer app.stores.settings).serverName
    (List.range app.serverListModel.length) fun i hi => List.mem_range.1 hi
  exact hsel.congr rfl rfl rfl rfl rfl rfl rfl

theorem Accords.populateServerList {old app : App} (h : Accords old app) (hd : Displayed app) :
    Accords old (populateServerList app) := by
  obtain ⟨rows, _, _, happ⟩ := populateServerList_spec app
  have hext : Accords old { app with
      serverListModel := app.serverListModel ++ rows
      serverStatusReady := app.serverStatusReady + 1
      getServerStatus := app.getServerStatus + 1 } :=
    h.congr rfl (row_extend hd rfl (List.prefix_append _ _)) rfl rfl rfl rfl rfl
  rw [happ]
  exact hext.getLastUsedServer

theorem Accords.populateServerList_iterate (n : Nat) {old app : App} (h : Accords old app) (hd : Displayed app) :
    Accords old (MainWindow.populateServerList^[n] app) := by
  induction n with
  | zero => exact h
  | succ n ih =>
    rw [Function.iterate_succ_apply']
    exact ih.populateServerList (hd.populateServerList_iterate n)

theorem Accords.addToServerList {old app : App} (h : Accords old app) (hd : Displayed app)
    (serverName serverIp : String) : Accords old (addToServerList serverName serverIp app) := by
  obtain ⟨row, _, _, happ⟩ := addToServerList_spec serverName serverIp app
  have hext : Accords old { app with
      stores := { app.stores with settings := addLocalServer (serverObj serverName serverIp) app.stores.settings }
      serverListModel := app.serverListModel ++ [row] } := by
    refine h.congr rfl (row_extend hd rfl (List.prefix_append _ _)) rfl rfl rfl rfl (getServerInformation_congr ?_)
    intro k
    exact addLocalServer_lookup _ _ _ (by simp [communityServers, localServers])
  have hlen : app.serverListModel.length < (app.serverListModel ++ [row]).length := by
    rw [List.length_append, List.length_singleton]
    omega
  have hset := hext.setCurrentIndex hlen
  rw [happ]
  exact hset.congr rfl rfl rfl rfl rfl rfl rfl

/-- The reply may change the records; from there on its handlers keep to them. -/
theorem Describes.serversReply {app : App} (h : Describes app) (hd : Displayed app) (jsonResponse : Document) :
    ∃ saved, Stays app saved ∧ Accords saved (handleServersReply jsonResponse app) := by
  have hsaved : Displayed { app with
      stores := { app.stores with settings := saveServersReply jsonResponse app.stores.settings } } := by
    refine hd.extend rfl List.prefix_rfl ?_
    rintro l (rfl | rfl | rfl)
    · exact saveServersReply_lookup _ _ _ (by simp [communityServers])
    · exact saveServersReply_lookup _ _ _ (by simp [communityServers])
    · rfl
  have hdescribes : Describes { app with
      stores := { app.stores with settings := saveServersReply jsonResponse app.stores.settings } } :=
    ⟨h.icon, h.label, fun hne => saveServersReply_keeps_some (h.known hne)⟩
  refine ⟨{ app with stores := { app.stores with settings := saveServersReply jsonResponse app.stores.settings } },
    ⟨rfl, rfl, rfl⟩, ?_⟩
  exact hdescribes.accords.populateServerList_iterate app.fetchServerListFinished hsaved

/-! ## Status results -/

theorem row_modify (app : App) (s : ServerStatus) (i : Nat) (j : Int) :
    (({ app with serverListModel := app.serverListModel.modify i (statusRow s) } : App).row j).map Row.serverName =
      (app.row j).map Row.serverName := by
  unfold App.row
  split
  · rfl
  · rw [List.getElem?_modify, Option.map_eq_map, Option.map_map]
    congr 1
    funext row
    simp only [Function.comp_apply]
    split
    · exact congrArg ServerRecord.serverName (statusRow_record s row)
    · rfl

/-- In each turn of the loop of `get_server_status` the refresh brings the texts up to the row that has changed. -/
theorem Accords.updateRows (s : ServerStatus) : ∀ (is : List Nat) {old app : App}, Accords old app →
    Accords old (updateRows s is app)
  | [], _, _, h => h
  | i :: is, old, app, h => by
    rw [MainWindow.updateRows]
    have hname := row_modify app s i app.currentIndex
    cases href : refreshStatusText { app with serverListModel := app.serverListModel.modify i (statusRow s) } with
    | none =>
      have hnone := refreshStatusText_isSome { app with serverListModel := app.serverListModel.modify i (statusRow s) }
      rw [href, eq_comm, Option.isSome_none, Option.isSome_eq_false_iff, Option.isNone_iff_eq_none] at hnone
      refine h.stays ⟨rfl, hname, rfl⟩ rfl ?_ ?_
      · intro row hr
        cases hnone.symm.trans hr
      · intro row hr
        cases hnone.symm.trans hr
    | some app' =>
      obtain ⟨hsel, hidx, hstores⟩ := refreshStatusText_spec _ app' href
      obtain ⟨row, hrow, hicon, hlabel, hinfo⟩ := refreshStatusText_shows href
      have hsame : ∀ row', app'.row app'.currentIndex = some row' → row' = row := by
        intro row' hr
        rw [hidx, hsel.row] at hr
        exact Option.some.inj (hr.symm.trans hrow)
      apply Accords.updateRows s is
      refine h.stays ⟨hidx, ?_, hinfo⟩ (by rw [hstores]) ?_ ?_
      · rw [hidx, hsel.row]
        exact hname
      · intro row' hr
        rw [hsame row' hr]
        exact hicon
      · intro row' hr
        rw [hsame row' hr]
        exact hlabel

theorem Accords.getServerStatus_iterate (n : Nat) {old app : App} (h : Accords old app) :
    Accords old (MainWindow.getServerStatus^[n] app) := by
  induction n with
  | zero => exact h
  | succ n ih =>
    rw [Function.iterate_succ_apply']
    exact Accords.updateRows _ _ ih

theorem Accords.handleServerStatusWorker {old app : App} (h : Accords old app) (status : Bool)
    (server uptime : String) : Accords old (handleServerStatusWorker status server uptime app) := by
  unfold Launcher.handleServerStatusWorker
  cases status with
  | true =>
    have hset : Accords old
        { app with mServerName := server, mServerStatus := true, mServerUptime := some uptime } :=
      h.congr rfl rfl rfl rfl rfl rfl rfl
    exact hset.getServerStatus_iterate app.serverStatusReady
  | false =>
    have hset : Accords old { app with mServerName := server, mServerStatus := false } :=
      h.congr rfl rfl rfl rfl rfl rfl rfl
    exact hset.getServerStatus_iterate app.serverStatusReady

/-! ## Runs -/

/-- Every event either leaves the selection alone or brings the information text up to date. -/
theorem describes_step {app app' : App} {e : Event} (h : app.step e = some app') (hd : Displayed app)
    (hi : Describes app) : Describes app' ∧ (Stays app app' ∨ Informed app') := by
  have haccords : ∀ {app'}, Accords app app' → Describes app' ∧ (Stays app app' ∨ Informed app') := fun h =>
    ⟨h.toDescribes, h.text⟩
  cases step_handles h with
  | startUpSetup => exact haccords hi.accords
  | startUpFetches x y f => exact haccords (hi.accords.congr rfl rfl rfl rfl rfl rfl rfl)
  | fetchServerList => exact haccords (hi.accords.congr rfl rfl rfl rfl rfl rfl rfl)
  | populateServerList => exact haccords (hi.accords.populateServerList hd)
  | getLastUsedServer => exact haccords hi.accords.getLastUsedServer
  | addToServerList serverName serverIp => exact haccords (hi.accords.addToServerList hd serverName serverIp)
  | select hlt => exact haccords (hi.accords.setCurrentIndex hlt)
  | serversReply jsonResponse hpos =>
    have hdescribes : Describes { app with serversInFlight := app.serversInFlight - 1 } := ⟨hi.icon, hi.label, hi.known⟩
    have hdisp : Displayed { app with serversInFlight := app.serversInFlight - 1 } := hd
    obtain ⟨saved, hstays, hsaved⟩ := hdescribes.serversReply hdisp jsonResponse
    refine ⟨hsaved.toDescribes, ?_⟩
    rcases hsaved.text with hs | hinformed
    · have hold : Stays app saved := ⟨hstays.currentIndex, hstays.serverName, hstays.serverInfoText⟩
      exact .inl (hold.trans hs)
    · exact .inr hinformed
  | serversReplyError hpos => exact haccords (hi.accords.congr rfl rfl rfl rfl rfl rfl rfl)
  | serverStatus status server uptime => exact haccords (hi.accords.handleServerStatusWorker status server uptime)

/-- **The window describes the selected server** after every run: the icon is its icon; the label is its status as soon
as that is known; and some state of the run, since which neither the selection nor the information text has changed, had
saved what that text says of a server of its name. -/
theorem describes_always (stores : Stores) {events : List Event} {app : App}
    (h : Runs.run App.step (App.init stores) events = some app) :
    Describes app ∧ ∀ row, app.row app.currentIndex = some row →
      ∃ before after old, events = before ++ after ∧ Runs.run App.step (App.init stores) before = some old ∧
        Runs.run App.step old after = some app ∧ Runs.AllStates App.step (Stays old) old after ∧
        About (getServerInformation old.stores.settings) row.serverName app.serverInfoText := by
  have hinv : ∀ {app e app'}, App.step app e = some app' → Displayed app ∧ Describes app →
      Displayed app' ∧ Describes app' := fun h hi => ⟨displayed_step h hi.1, (describes_step h hi.1 hi.2).1⟩
  have hinit : Displayed (App.init stores) ∧ Describes (App.init stores) := by
    refine ⟨?_, describes_init stores⟩
    intro hpos
    have hnone : (App.init stores).currentIndex = -1 := rfl
    omega
  refine ⟨(Runs.run_inv hinv h hinit).2, ?_⟩
  intro row hrow
  obtain ⟨before, after, old, hsplit, hbefore, hafter, hinformed, hstays, hall⟩ :=
    Runs.exists_since Stays.refl Stays.trans hinv (fun h hi => (describes_step h hi.1 hi.2).2) hinit
      (P := Informed) (fun _ hnone => nomatch hnone) h
  obtain ⟨row', hrow', hname⟩ := hstays.row hrow
  refine ⟨before, after, old, hsplit, hbefore, hafter, hall, ?_⟩
  rw [← hname, hstays.serverInfoText]
  exact hinformed row' hrow'

/-- A community list of one server of that name. -/
def oneNamed (serverName description : String) : Document :=
  some (.object [("Servers", .array [.object [("ServerDetails", .object
    [("Name", .string serverName), ("IP", .string "10.0.0.1"), ("Description", .string description),
     ("WebURL", .string "https://o.example/join")])]])])

/-- The server is listed anew under a name with the same place in the store. -/
def renamedRun : List Event :=
  [.fetchServerList, .serversReply (oneNamed "/Outpost" "old"), .fetchServerList,
    .serversReply (oneNamed "Outpost" "new")]

/-- The text is still that of the record under the old name, which is not saved any more. -/
theorem describes_always_renamed :
    ∃ app row, Runs.run App.step (App.init ⟨∅, ∅⟩) renamedRun = some app ∧ app.row app.currentIndex = some row ∧
      row.serverName = "/Outpost" ∧ ¬ Informed app ∧ ∃ before after old, renamedRun = before ++ after ∧
        Runs.run App.step (App.init ⟨∅, ∅⟩) before = some old ∧
        About (Launcher.getServerInformation old.stores.settings) row.serverName app.serverInfoText := by
  have hrun : (Runs.run App.step (App.init ⟨∅, ∅⟩) renamedRun).any (fun app =>
      (app.row app.currentIndex).any (fun row => row.serverName = "/Outpost") &&
        app.serverInfoText ≠ "No server information available" &&
        (Launcher.getServerInformation app.stores.settings).map ServerInfo.serverName = ["Outpost"]) = true := by
    decide +kernel
  obtain ⟨app, happ, hchecks⟩ := (Option.any_eq_true _ _).1 hrun
  simp only [Bool.and_eq_true, decide_eq_true_eq] at hchecks
  obtain ⟨⟨hrow, htext⟩, hservers⟩ := hchecks
  obtain ⟨row, hrow, hname⟩ := (Option.any_eq_true _ _).1 hrow
  obtain hname : row.serverName = "/Outpost" := by simpa using hname
  obtain ⟨before, after, old, hsplit, hbefore, -, -, habout⟩ := (describes_always ⟨∅, ∅⟩ happ).2 row hrow
  refine ⟨app, row, happ, hrow, hname, ?_, before, after, old, hsplit, hbefore, habout⟩
  intro hinformed
  have hnow := hinformed row hrow
  obtain ⟨info, hservers, hinfo⟩ := List.map_eq_singleton_iff.1 hservers
  simp only [About, hservers, hname, List.find?_cons, hinfo] at hnow
  exact htext (by simpa using hnow)

end SegsLauncher
