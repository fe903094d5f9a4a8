import SegsLauncher.Worker
import SegsLauncher.Selection
/-!
# The window and the status worker together

The two threads share the settings store and two queues: `getServerStatus` signals to the worker,
`serverStatusWorkerReady` signals back. A result travels with a name only, and is written to every row of
that name when the window gets to it.

| here | there |
| --- | --- |
| `WorldEvent.window`   | a handler of the window's thread, one that is not about a result |
| `WorldEvent.dispatch` | the worker takes the next `getServerStatus`, if it runs events |
| `WorldEvent.worker`   | the innermost `server_status_dispatcher` goes on |
| `WorldEvent.deliver`  | `handle_server_status_worker` on the oldest result in the queue |

`World.written` is not in the source: it records which row each result was written to.
-/
namespace SegsLauncher

open Launcher MainWindow

structure World where
  app : App
  worker : Worker := {}
  /-- How many of `worker.emitted` have been handled; the others are queued. -/
  handled : Nat := 0
  written : List (Row × Result) := []

inductive WorldEvent where
  | window (e : Event)
  | dispatch
  | worker (e : Worker.Event)
  | deliver

/-- `get_server_status` finds the row by its name and knows its type. -/
def writes (server : String) (row : Row) : Bool :=
  server = row.serverName ∧ (row.serverType = "C" ∨ row.serverType = "L")

/-- The rows a result is written to: those it finds, once `get_server_status` is connected. -/
def App.written (server : String) (app : App) : List Row :=
  if app.serverStatusReady = 0 then [] else app.serverListModel.filter (writes server)

def Event.isReport : Event → Bool
  | .serverStatus _ _ _ => true
  | _ => false

namespace World

def store (w : World) : Store := w.app.stores.settings

def step (w : World) : WorldEvent → Option World
  | .window e => if e.isReport then none else (w.app.step e).map fun app => { w with app := app }
  | .dispatch =>
    if 0 < w.app.getServerStatus then
      (w.worker.dispatch w.store).map fun worker =>
        { w with app := { w.app with getServerStatus := w.app.getServerStatus - 1 }, worker := worker }
    else none
  | .worker e => (w.worker.step w.store e).map fun worker => { w with worker := worker }
  | .deliver =>
    match w.worker.emitted[w.handled]? with
    | none => none
    | some r =>
      some { w with
        app := handleServerStatusWorker r.status r.server r.uptime w.app
        handled := w.handled + 1
        written := w.written ++ (w.app.written r.server).map fun row => (row, r) }

def init (stores : Stores) : World := { app := App.init stores }

end World

/-! ## What a result does to the rows -/

theorem statusRow_of_not_writes {s : ServerStatus} {row : Row} (h : ¬ writes s.serverName row) :
    statusRow s row = row := by
  simp only [writes, decide_eq_true_eq, not_and, not_or] at h
  unfold statusRow
  split_ifs with hname htrue hc hl hc hl
  · exact absurd hc (h hname).1
  · exact absurd hl (h hname).2
  · rfl
  · exact absurd hc (h hname).1
  · exact absurd hl (h hname).2
  · rfl
  · rfl

theorem statusRow_of_writes {s : ServerStatus} {row : Row} (h : writes s.serverName row) :
    (statusRow s row).serverStatus = some s.serverStatus ∧
      (s.serverStatus = true → (statusRow s row).serverUptime = s.serverUptime) := by
  simp only [writes, decide_eq_true_eq] at h
  obtain ⟨hname, htype⟩ := h
  unfold statusRow
  rw [if_pos hname]
  split_ifs with ht hc hl hc hl
  · exact ⟨congrArg some ht.symm, fun _ => rfl⟩
  · exact ⟨congrArg some ht.symm, fun _ => rfl⟩
  · exact absurd htype (not_or.2 ⟨hc, hl⟩)
  · exact ⟨congrArg some (Bool.eq_false_iff.2 ht).symm, fun h => absurd h ht⟩
  · exact ⟨congrArg some (Bool.eq_false_iff.2 ht).symm, fun h => absurd h ht⟩
  · exact absurd htype (not_or.2 ⟨hc, hl⟩)

/-- A second run of `get_server_status` on one result changes nothing. -/
theorem statusRow_idem (s : ServerStatus) (row : Row) : statusRow s (statusRow s row) = statusRow s row := by
  by_cases hname : s.serverName = row.serverName
  · cases hs : s.serverStatus with
    | true =>
      by_cases hc : row.serverType = "C"
      · simp [statusRow, hname, hs, hc]
      · by_cases hl : row.serverType = "L"
        · simp [statusRow, hname, hs, hl]
        · simp [statusRow, hname, hs, hc, hl]
    | false =>
      by_cases hc : row.serverType = "C"
      · simp [statusRow, hname, hs, hc]
      · by_cases hl : row.serverType = "L"
        · simp [statusRow, hname, hs, hl]
        · simp [statusRow, hname, hs, hc, hl]
  · simp [statusRow, hname]

/-! ### The loop of `get_server_status` -/

/-- The parts of `App` a result is shown with. -/
structure Shown (s : ServerStatus) (app : App) : Prop where
  selected : Selected app
  status : isServerOnline app = s

theorem refreshStatusText_of_selected {app : App} (h : Selected app) (hne : app.serverListModel ≠ []) :
    ∃ app', refreshStatusText app = some app' ∧ Selects app app' ∧ app'.currentIndex = app.currentIndex := by
  have hsome : (refreshStatusText app).isSome := by
    rw [refreshStatusText_isSome]
    exact h hne
  obtain ⟨app', happ⟩ := Option.isSome_iff_exists.1 hsome
  obtain ⟨hsel, hidx, _⟩ := refreshStatusText_spec app app' happ
  exact ⟨app', happ, hsel, hidx⟩

/-- With a row selected, the loop visits every index it is given. -/
theorem updateRows_rows (s : ServerStatus) : ∀ (is : List Nat) {app : App}, Shown s app →
    (∀ i ∈ is, i < app.serverListModel.length) →
    Shown s (updateRows s is app) ∧ (updateRows s is app).serverListModel =
      is.foldl (fun rows i => rows.modify i (statusRow s)) app.serverListModel
  | [], _, h, _ => ⟨h, rfl⟩
  | i :: is, app, h, his => by
    let app₁ : App := { app with serverListModel := app.serverListModel.modify i (statusRow s) }
    have hlen : app₁.serverListModel.length = app.serverListModel.length := List.length_modify ..
    have hi : i < app.serverListModel.length := his i List.mem_cons_self
    have hsel₁ : Selected app₁ := h.selected.of_length rfl hlen
    have hne₁ : app₁.serverListModel ≠ [] := by
      intro hnil
      rw [← hlen, hnil] at hi
      exact absurd hi (Nat.not_lt_zero i)
    obtain ⟨app₂, happ₂, hsel₂, hidx₂⟩ := refreshStatusText_of_selected hsel₁ hne₁
    have hshown : Shown s app₂ := by
      refine ⟨hsel₁.of_length hidx₂ (congrArg List.length hsel₂.serverListModel), ?_⟩
      rw [← h.status]
      simp only [isServerOnline, hsel₂.mServerName, hsel₂.mServerStatus, hsel₂.mServerUptime]
      rfl
    have hrest : ∀ j ∈ is, j < app₂.serverListModel.length := by
      intro j hj
      rw [hsel₂.serverListModel, hlen]
      exact his j (List.mem_cons_of_mem _ hj)
    obtain ⟨hshown', hrows⟩ := updateRows_rows s is hshown hrest
    have hstep : updateRows s (i :: is) app = updateRows s is app₂ := by
      rw [updateRows, happ₂]
    rw [hstep, List.foldl_cons]
    exact ⟨hshown', hrows.trans (by rw [hsel₂.serverListModel])⟩

/-- Changing each place of a list once is mapping it. -/
theorem foldl_modify_range {α : Type} (f : α → α) (l : List α) :
    (List.range l.length).foldl (fun l i => l.modify i f) l = l.map f := by
  have hget : ∀ n k, ((List.range n).foldl (fun l i => l.modify i f) l)[k]? =
      if k < n then (l[k]?).map f else l[k]? := by
    intro n
    induction n with
    | zero => intro k; rfl
    | succ n ih =>
      intro k
      rw [List.range_succ, List.foldl_append, List.foldl_cons, List.foldl_nil, List.getElem?_modify, ih]
      by_cases hk : n = k
      · subst hk
        simp
      · by_cases hlt : k < n
        · have hlt' : k < n + 1 := by omega
          simp [hk, hlt, hlt']
        · have hge : ¬ k < n + 1 := by omega
          simp [hk, hlt, hge]
  apply List.ext_getElem?
  intro k
  rw [hget, List.getElem?_map]
  split
  · rfl
  · rw [List.getElem?_eq_none (by omega)]
    rfl

theorem getServerStatus_rows {s : ServerStatus} {app : App} (h : Shown s app) :
    Shown s (getServerStatus app) ∧ (getServerStatus app).serverListModel = app.serverListModel.map (statusRow s) := by
  unfold getServerStatus
  rw [h.status, ← foldl_modify_range]
  exact updateRows_rows s _ h fun i hi => List.mem_range.1 hi

/-- However often it is connected, `get_server_status` leaves what one run leaves. -/
theorem getServerStatus_iterate_rows {s : ServerStatus} {app : App} (h : Shown s app) (n : Nat) :
    Shown s (getServerStatus^[n] app) ∧ (getServerStatus^[n] app).serverListModel =
      if n = 0 then app.serverListModel else app.serverListModel.map (statusRow s) := by
  induction n with
  | zero => exact ⟨h, rfl⟩
  | succ n ih =>
    obtain ⟨hshown, hrows⟩ := ih
    obtain ⟨hshown', hrows'⟩ := getServerStatus_rows hshown
    rw [Function.iterate_succ_apply', if_neg (Nat.succ_ne_zero n)]
    refine ⟨hshown', hrows'.trans ?_⟩
    rw [hrows]
    split
    · rfl
    · rw [List.map_map]
      exact List.map_congr_left fun row _ => statusRow_idem s row

/-- The status object a result leads to. -/
def statusOf (status : Bool) (server uptime : String) (app : App) : ServerStatus :=
  ⟨server, status, if status = true then some uptime else app.mServerUptime⟩

/-- `handle_server_status_worker` writes the result to every row, as soon as a handler is connected. -/
theorem handleServerStatusWorker_rows {app : App} (h : Selected app) (status : Bool) (server uptime : String) :
    (handleServerStatusWorker status server uptime app).serverListModel =
      if app.serverStatusReady = 0 then app.serverListModel
      else app.serverListModel.map (statusRow (statusOf status server uptime app)) := by
  unfold handleServerStatusWorker
  cases status with
  | true =>
    have hshown : Shown (statusOf true server uptime app)
        { app with mServerName := server, mServerStatus := true, mServerUptime := some uptime } := ⟨h, rfl⟩
    exact (getServerStatus_iterate_rows hshown app.serverStatusReady).2
  | false =>
    have hshown : Shown (statusOf false server uptime app)
        { app with mServerName := server, mServerStatus := false } := ⟨h, rfl⟩
    exact (getServerStatus_iterate_rows hshown app.serverStatusReady).2

/-! ## What the other handlers do to the rows -/

/-- Rows are appended, without a status, and handlers connected. -/
structure Appends (app app' : App) : Prop where
  rows : ∃ new, app'.serverListModel = app.serverListModel ++ new ∧ ∀ row ∈ new, row.serverStatus = none
  serverStatusReady : app.serverStatusReady ≤ app'.serverStatusReady

theorem Appends.of_eq {app app' : App} (hrows : app'.serverListModel = app.serverListModel)
    (hready : app'.serverStatusReady = app.serverStatusReady) : Appends app app' where
  rows := ⟨[], by rw [hrows, List.append_nil], fun _ h => nomatch h⟩
  serverStatusReady := hready.ge

theorem Appends.trans {a b c : App} (h : Appends a b) (h' : Appends b c) : Appends a c where
  rows := by
    obtain ⟨new, hb, hnew⟩ := h.rows
    obtain ⟨new', hc, hnew'⟩ := h'.rows
    refine ⟨new ++ new', by rw [hc, hb, List.append_assoc], ?_⟩
    intro row hrow
    rcases List.mem_append.1 hrow with hrow | hrow
    · exact hnew row hrow
    · exact hnew' row hrow
  serverStatusReady := Nat.le_trans h.serverStatusReady h'.serverStatusReady

theorem Selects.appends {app app' : App} (h : Selects app app') : Appends app app' :=
  .of_eq h.serverListModel h.serverStatusReady

theorem populateServerList_appends (app : App) : Appends app (populateServerList app) := by
  obtain ⟨rows, _, hnone, happ⟩ := populateServerList_spec app
  rw [happ]
  refine Appends.trans ?_ (getLastUsedServer_selects _).appends
  exact ⟨⟨rows, rfl, hnone⟩, Nat.le_succ _⟩

theorem populateServerList_iterate_appends (n : Nat) (app : App) : Appends app (populateServerList^[n] app) := by
  induction n with
  | zero => exact .of_eq rfl rfl
  | succ n ih =>
    rw [Function.iterate_succ_apply']
    exact ih.trans (populateServerList_appends _)

theorem appends_step {app app' : App} {e : Event} (h : app.step e = some app') (he : e.isReport = false) :
    Appends app app' := by
  cases step_handles h with
  | startUpSetup => exact .of_eq rfl rfl
  | startUpFetches x y f => exact .of_eq rfl rfl
  | fetchServerList => exact .of_eq rfl rfl
  | populateServerList => exact populateServerList_appends app
  | getLastUsedServer => exact (getLastUsedServer_selects app).appends
  | addToServerList serverName serverIp =>
    obtain ⟨row, _, hnone, happ⟩ := addToServerList_spec serverName serverIp app
    rw [happ]
    refine Appends.trans ?_ (setCurrentIndex_selects _ _).startWorker.appends
    refine ⟨⟨[row], rfl, fun r hr => ?_⟩, Nat.le_refl _⟩
    rw [List.mem_singleton.1 hr]
    exact hnone
  | @select i hi => exact (setCurrentIndex_selects i app).appends
  | serversReply jsonResponse hpos =>
    have hpop := populateServerList_iterate_appends app.fetchServerListFinished
      { app with serversInFlight := app.serversInFlight - 1
                 stores := { app.stores with settings := saveServersReply jsonResponse app.stores.settings } }
    exact ⟨hpop.rows, hpop.serverStatusReady⟩
  | serversReplyError hpos => exact .of_eq rfl rfl
  | serverStatus status server uptime => cases he

/-! ## Steps of the world -/

section Step
variable {w w' : World}

theorem step_window {e : Event} (h : w.step (.window e) = some w') :
    e.isReport = false ∧ ∃ app, w.app.step e = some app ∧ w' = { w with app := app } := by
  simp only [World.step] at h
  split at h
  · cases h
  · rename_i he
    obtain ⟨app, happ, rfl⟩ := Option.map_eq_some_iff.1 h
    exact ⟨by simpa using he, app, happ, rfl⟩

theorem step_dispatch (h : w.step .dispatch = some w') :
    ∃ worker, w.worker.dispatch w.store = some worker ∧
      w' = { w with app := { w.app with getServerStatus := w.app.getServerStatus - 1 }, worker := worker } := by
  simp only [World.step, Option.ite_none_right_eq_some] at h
  obtain ⟨worker, hworker, rfl⟩ := Option.map_eq_some_iff.1 h.2
  exact ⟨worker, hworker, rfl⟩

theorem step_worker {e : Worker.Event} (h : w.step (.worker e) = some w') :
    ∃ worker, Worker.Moves w.store w.worker worker ∧ w' = { w with worker := worker } := by
  obtain ⟨worker, hworker, rfl⟩ := Option.map_eq_some_iff.1 h
  exact ⟨worker, Worker.step_moves hworker, rfl⟩

theorem step_deliver (h : w.step .deliver = some w') :
    ∃ r, w.worker.emitted[w.handled]? = some r ∧ w' = { w with
      app := handleServerStatusWorker r.status r.server r.uptime w.app
      handled := w.handled + 1
      written := w.written ++ (w.app.written r.server).map fun row => (row, r) } := by
  simp only [World.step] at h
  split at h
  · cases h
  · rename_i r hr
    exact ⟨r, hr, (Option.some.inj h).symm⟩

theorem world_selected {e : WorldEvent} (h : w.step e = some w') (hs : Selected w.app) : Selected w'.app := by
  cases e with
  | window e =>
    obtain ⟨_, app, happ, rfl⟩ := step_window h
    exact selected_step happ hs
  | dispatch =>
    obtain ⟨worker, _, rfl⟩ := step_dispatch h
    exact hs
  | worker e =>
    obtain ⟨worker, _, rfl⟩ := step_worker h
    exact hs
  | deliver =>
    obtain ⟨r, _, rfl⟩ := step_deliver h
    exact (handleServerStatusWorker_reports r.status r.server r.uptime w.app).selected hs

end Step

end SegsLauncher
