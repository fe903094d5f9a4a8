import SegsLauncher.World
/-!
# Is a status shown for the server that was probed?

A result is written to every row that bears the probed *name*. `Attributed` asks for more: the status of a
row is that of a probe to the row's own address. The two differ exactly when a result meets a row of its
name with another address (`attributed_iff`): a server added again under its name, a community and a local
server of one name, or an address that a reply changed after the probe.
-/
namespace SegsLauncher

open Launcher MainWindow

/-- A row shows the outcome of a probe: its status and, when online, its uptime. -/
def Carries (row : Row) (r : Result) : Prop :=
  row.serverStatus = some r.status ∧ (r.status = true → row.serverUptime = some r.uptime)

/-- Every status shown is that of a probe to the row's own address, and no result of a probe to another
address has been written to a row. -/
structure Attributed (w : World) : Prop where
  own : ∀ row ∈ w.app.serverListModel, row.serverStatus ≠ none →
    ∃ r ∈ w.worker.emitted, w.worker.started[r.probe]? = some ⟨r.sweep, r.server, row.serverIp⟩ ∧ Carries row r
  written : ∀ e ∈ w.written, e.2.authAddr = e.1.serverIp

/-- What the state before an event must be like: when a result is handled and `get_server_status` is
connected, every community or local row of the probed name has the probed address. -/
def FindsProbed (w : World) : WorldEvent → Prop
  | .window _ | .dispatch | .worker _ => True
  | .deliver => ∀ r, w.worker.emitted[w.handled]? = some r → 0 < w.app.serverStatusReady →
      ∀ row ∈ w.app.serverListModel, row.serverName = r.server → row.serverType = "C" ∨ row.serverType = "L" →
        row.serverIp = r.authAddr

structure WorldInv (w : World) : Prop where
  selected : Selected w.app
  recorded : w.worker.Recorded

section
variable {w w' : World}

theorem worldInv_init (stores : Stores) : WorldInv (World.init stores) where
  selected := fun h => absurd rfl h
  recorded := Worker.recorded_init

theorem worldInv_step {e : WorldEvent} (h : w.step e = some w') (hi : WorldInv w) : WorldInv w' := by
  refine ⟨world_selected h hi.selected, ?_⟩
  cases e with
  | window e =>
    obtain ⟨_, app, _, rfl⟩ := step_window h
    exact hi.recorded
  | dispatch =>
    obtain ⟨worker, hw, rfl⟩ := step_dispatch h
    exact Worker.recorded_dispatch hi.recorded hw
  | worker e =>
    obtain ⟨worker, hw, rfl⟩ := step_worker h
    exact Worker.recorded_moves hi.recorded hw
  | deliver =>
    obtain ⟨r, _, rfl⟩ := step_deliver h
    exact hi.recorded

/-- More rows without a status, more probes and more results keep what is shown. -/
theorem Attributed.grow (ha : Attributed w) (hrows : Appends w.app w'.app) (hwritten : w'.written = w.written)
    (hem : w.worker.emitted <+: w'.worker.emitted) (hst : w.worker.started <+: w'.worker.started) :
    Attributed w' where
  own := fun row hrow hstatus => by
    obtain ⟨new, hnew, hnone⟩ := hrows.rows
    rw [hnew] at hrow
    rcases List.mem_append.1 hrow with hrow | hrow
    · obtain ⟨r, hr, hprobe, hcarries⟩ := ha.own row hrow hstatus
      refine ⟨r, hem.subset hr, ?_, hcarries⟩
      obtain ⟨rest, hrest⟩ := hst
      rw [← hrest, List.getElem?_append_left (List.getElem?_eq_some_iff.1 hprobe).1]
      exact hprobe
    · exact absurd (hnone row hrow) hstatus
  written := by
    rw [hwritten]
    exact ha.written

theorem mem_written {server : String} {app : App} {row : Row} :
    row ∈ app.written server ↔ 0 < app.serverStatusReady ∧ row ∈ app.serverListModel ∧
      row.serverName = server ∧ (row.serverType = "C" ∨ row.serverType = "L") := by
  unfold App.written
  split
  · rename_i hzero
    simp [hzero]
  · rename_i hne
    have hpos : 0 < app.serverStatusReady := by omega
    simp only [List.mem_filter, writes, decide_eq_true_eq, hpos, true_and, eq_comm (a := server)]

/-- A row after a result is one it was written to, which shows it, or one it left alone. -/
theorem row_delivered {app : App} {r : Result} {row : Row} (h : Selected app)
    (hrow : row ∈ (handleServerStatusWorker r.status r.server r.uptime app).serverListModel) :
    (∃ old ∈ app.written r.server, row.record = old.record ∧ Carries row r) ∨
      row ∈ app.serverListModel ∧ row ∉ app.written r.server := by
  rw [handleServerStatusWorker_rows h] at hrow
  by_cases hzero : app.serverStatusReady = 0
  · rw [if_pos hzero] at hrow
    right
    refine ⟨hrow, ?_⟩
    rw [App.written, if_pos hzero]
    exact List.not_mem_nil
  · rw [if_neg hzero] at hrow
    obtain ⟨old, hold, rfl⟩ := List.mem_map.1 hrow
    have hmem : old ∈ app.written r.server ↔ writes r.server old = true := by
      rw [App.written, if_neg hzero, List.mem_filter]
      simp only [hold, true_and]
    by_cases hw : writes r.server old = true
    · left
      obtain ⟨hst, hup⟩ := statusRow_of_writes (s := statusOf r.status r.server r.uptime app) hw
      refine ⟨old, hmem.2 hw, statusRow_record _ old, hst, fun htrue => (hup htrue).trans ?_⟩
      simp only [statusOf, if_pos htrue]
    · right
      rw [statusRow_of_not_writes hw]
      exact ⟨hold, fun h => hw (hmem.1 h)⟩

/-- A result is written to rows of the probed address only, exactly when it finds no others. -/
theorem attributed_deliver {r : Result} (hi : WorldInv w) (ha : Attributed w)
    (hr : w.worker.emitted[w.handled]? = some r) :
    Attributed { w with
        app := handleServerStatusWorker r.status r.server r.uptime w.app
        handled := w.handled + 1
        written := w.written ++ (w.app.written r.server).map fun row => (row, r) } ↔ FindsProbed w .deliver := by
  constructor
  · intro ha' r' hr' hready row hrow hname htype
    obtain rfl : r = r' := Option.some.inj (hr.symm.trans hr')
    have hmem : row ∈ w.app.written r.server := mem_written.2 ⟨hready, hrow, hname, htype⟩
    exact (ha'.written (row, r) (List.mem_append_right _ (List.mem_map_of_mem hmem))).symm
  · intro hc
    have hprobed : ∀ row ∈ w.app.written r.server, row.serverIp = r.authAddr := by
      intro row hrow
      obtain ⟨hready, hrow, hname, htype⟩ := mem_written.1 hrow
      exact hc r hr hready row hrow hname htype
    refine ⟨fun row hrow hstatus => ?_, fun e he => ?_⟩
    · rcases row_delivered hi.selected hrow with ⟨old, hold, hrec, hcarries⟩ | ⟨hold, _⟩
      · -- the row now shows this result, and has the address that was probed
        have hip : row.serverIp = r.authAddr := (congrArg ServerRecord.serverIp hrec).trans (hprobed old hold)
        have hmem : r ∈ w.worker.emitted := List.mem_of_getElem? hr
        refine ⟨r, hmem, ?_, hcarries⟩
        rw [hip]
        exact hi.recorded.emitted r hmem
      · exact ha.own row hold hstatus
    · rcases List.mem_append.1 he with he | he
      · exact ha.written e he
      · obtain ⟨row, hrow, rfl⟩ := List.mem_map.1 he
        exact (hprobed row hrow).symm

theorem attributed_step {e : WorldEvent} (h : w.step e = some w') (hi : WorldInv w) (ha : Attributed w) :
    Attributed w' ↔ FindsProbed w e := by
  cases e with
  | window e =>
    obtain ⟨he, app, happ, rfl⟩ := step_window h
    exact iff_of_true (ha.grow (appends_step happ he) rfl List.prefix_rfl List.prefix_rfl) trivial
  | dispatch =>
    obtain ⟨worker, hw, rfl⟩ := step_dispatch h
    obtain ⟨_, rfl⟩ := Worker.dispatch_eq hw
    exact iff_of_true (ha.grow (.of_eq rfl rfl) rfl List.prefix_rfl List.prefix_rfl) trivial
  | worker e =>
    obtain ⟨worker, hw, rfl⟩ := step_worker h
    exact iff_of_true
      (ha.grow (.of_eq rfl rfl) rfl (Worker.moves_emitted hw) (Worker.moves_started hw)) trivial
  | deliver =>
    obtain ⟨r, hr, rfl⟩ := step_deliver h
    exact attributed_deliver hi ha hr

end

/-- **Every status is shown for the server that was probed, all along a run, exactly when every result
    that is handled finds only rows of the probed address under its name.** -/
theorem attributed_iff (stores : Stores) (events : List WorldEvent) :
    Runs.AllStates World.step Attributed (World.init stores) events ↔
      Runs.AllSteps World.step FindsProbed (World.init stores) events := by
  refine Runs.allStates_iff_allSteps worldInv_step attributed_step (worldInv_init stores) ?_
  exact ⟨fun _ h => (nomatch h), fun _ h => (nomatch h)⟩

/-- A server is saved, probed, and saved again with another address before the result is handled: the
result is shown for the address that was not probed, too. -/
theorem attributed_fails_edit :
    ¬ Runs.AllStates World.step Attributed (World.init ⟨∅, ∅⟩)
      [.window .fetchServerList, .window (.serversReply none), .window (.addToServerList "Main" "10.0.0.1"),
       .dispatch, .worker .advance, .worker .advance, .worker .advance, .worker (.returns none 0 0),
       .window (.addToServerList "Main" "10.0.0.2"), .deliver] := by
  intro h
  have hlast := (Runs.allStates_iff_run.1 h _ List.prefix_rfl _ rfl).written
  revert hlast
  decide

end SegsLauncher
