import SegsLauncher.Lib.Directory
import SegsLauncher.Attribution
/-!
# Is a newer probe ever overwritten by an older one?

Results are handled in the order they are emitted. As long as a dispatcher call begins only when no other
is in progress, one probe ends before the next starts, and this is the order in which the probes were
started. A call taken inside the `ping` or `getStartTime` of another probes the same server again and
reports first; then the older outcome is the one that stays (`inOrder_fails_nested`).

The order alone does not bring a result to the list: `get_server_status` is connected by
`populate_server_list` only (`MainWindow.qml:1281`), which a failed fetch never runs
(`Launcher.cpp:110-114`), and it writes to the rows that are there. `FindsRows` says what a result must
meet; then, and then only, the list shows the probe that was started last (`inOrder_of_oneSweep`).
-/
namespace SegsLauncher

open Launcher MainWindow
open KeyTree (latest)

/-- Results are emitted in the order their probes were started, for each name and for each saved group. -/
structure EmittedInOrder (w : World) : Prop where
  byName : ∀ name, ((w.worker.emitted.filter (·.server = name)).map Result.probe).Pairwise (· < ·)
  byGroup : ∀ l group,
    ((w.worker.emitted.filter fun r => r.loop = l ∧ r.group = group).map Result.probe).Pairwise (· < ·)

/-- The list has the server, and each row of its name shows the outcome of the probe. -/
def ListShows (w : World) (name : String) (probe : Nat) : Prop :=
  (∃ row ∈ w.app.serverListModel, row.serverName = name) ∧
    ∀ row ∈ w.app.serverListModel, row.serverName = name →
      ∃ r ∈ w.worker.emitted, r.probe = probe ∧ Carries row r

/-- All sweeps have ended and all results are handled. -/
def Settled (w : World) : Prop := w.worker.sweeps = [] ∧ w.handled = w.worker.emitted.length

instance (w : World) : Decidable (Settled w) :=
  decidable_of_iff (w.worker.sweeps.isEmpty ∧ w.handled = w.worker.emitted.length) (by
    rw [List.isEmpty_iff, Settled])

/-- Results are emitted in order, and when all is settled the list shows for each server that was probed
the outcome of its last probe. -/
structure InOrder (w : World) : Prop extends EmittedInOrder w where
  shown : Settled w → ∀ id p, w.worker.started[id]? = some p →
    (∀ id' p', w.worker.started[id']? = some p' → p'.serverName = p.serverName → id' ≤ id) →
    ListShows w p.serverName id

/-- A dispatcher call begins when no other is in progress. -/
def OneSweep (w : World) : WorldEvent → Prop
  | .dispatch => w.worker.sweeps = []
  | .window _ | .worker _ | .deliver => True

instance (w : World) : (e : WorldEvent) → Decidable (OneSweep w e)
  | .dispatch => decidable_of_iff _ List.isEmpty_iff
  | .window _ | .worker _ | .deliver => isTrue trivial

/-- What the last result of a name must meet in a run that ends, settled, in `w`: when it is handled,
`get_server_status` is connected and the rows of its name are on the list, as community or local servers. -/
def FindsRows (w before : World) : WorldEvent → Prop
  | .window _ | .dispatch | .worker _ => True
  | .deliver => Settled w → ∀ r ∈ before.worker.emitted[before.handled]?,
      (∀ later ∈ w.worker.emitted.drop (before.handled + 1), later.server ≠ r.server) →
      0 < before.app.serverStatusReady ∧ (∃ row ∈ before.app.serverListModel, row.serverName = r.server) ∧
        (∀ row ∈ before.app.serverListModel, row.serverName = r.server →
          row.serverType = "C" ∨ row.serverType = "L") ∧
        ∀ row ∈ w.app.serverListModel.drop before.app.serverListModel.length, row.serverName ≠ r.server

instance (w before : World) : (e : WorldEvent) → Decidable (FindsRows w before e)
  | .window _ | .dispatch | .worker _ => isTrue trivial
  | .deliver => inferInstanceAs (Decidable (Settled w → ∀ r ∈ before.worker.emitted[before.handled]?, _))

/-! ## One probe at a time -/

namespace Worker

/-- The probe that is running in the innermost call. -/
def inProgress (w : Worker) : Option Nat :=
  match w.sweeps with
  | [] => none
  | s :: _ =>
    match s.turn with
    | none => none
    | some t => if t.phase = .readServerName then none else some t.probe

/-- At most one call, and every probe started before the running one has reported, in its turn. -/
structure Sequential (w : Worker) : Prop where
  sweeps : w.sweeps.length ≤ 1
  idle : w.inProgress = none → w.emitted.map Result.probe = List.range w.started.length
  running : ∀ p, w.inProgress = some p → w.started.length = p + 1 ∧ w.emitted.map Result.probe = List.range p

variable {st : Store} {w w' : Worker}

theorem inProgress_of_turn {s : Sweep} {rest : List Sweep} {t : Turn} (hs : w.sweeps = s :: rest)
    (ht : s.turn = some t) (hp : t.phase ≠ .readServerName) : w.inProgress = some t.probe := by
  unfold inProgress
  simp only [hs, ht, hp, if_false]

theorem inProgress_of_read {s : Sweep} {rest : List Sweep} {t : Turn} (hs : w.sweeps = s :: rest)
    (ht : s.turn = some t) (hp : t.phase = .readServerName) : w.inProgress = none := by
  unfold inProgress
  simp only [hs, ht, hp, if_true]

theorem inProgress_of_none {s : Sweep} {rest : List Sweep} (hs : w.sweeps = s :: rest) (ht : s.turn = none) :
    w.inProgress = none := by
  unfold inProgress
  simp only [hs, ht]

theorem inProgress_nil (hs : w.sweeps = []) : w.inProgress = none := by
  unfold inProgress
  simp only [hs]

/-- Between two probes nothing about them changes. -/
theorem Sequential.quiet (hq : Sequential w) (hlen : w'.sweeps.length ≤ 1) (h : w.inProgress = none)
    (h' : w'.inProgress = none) (hem : w'.emitted = w.emitted) (hst : w'.started = w.started) : Sequential w' where
  sweeps := hlen
  idle := fun _ => by
    rw [hem, hst]
    exact hq.idle h
  running := fun p hp => by
    rw [h'] at hp
    cases hp

theorem sequential_dispatch (hq : Sequential w) (hs : w.sweeps = []) (h : w.dispatch st = some w') :
    Sequential w' := by
  obtain ⟨_, rfl⟩ := dispatch_eq h
  refine hq.quiet ?_ (inProgress_nil hs) (inProgress_of_none rfl rfl) rfl rfl
  rw [hs]
  exact Nat.le_refl 1

theorem sequential_moves (hq : Sequential w) (h : Moves st w w') : Sequential w' := by
  have hlen : ∀ {s s' : Sweep} {rest}, w.sweeps = s :: rest → (s' :: rest).length ≤ 1 := by
    intro s s' rest hs
    have := hq.sweeps
    rw [hs] at this
    exact this
  cases h with
  | @beginTurn s rest group groups hs ht hg =>
    exact hq.quiet (hlen hs) (inProgress_of_none hs ht) (inProgress_of_read rfl rfl rfl) rfl rfl
  | @nextLoop s rest hs ht hg hl =>
    exact hq.quiet (hlen hs) (inProgress_of_none hs ht) (inProgress_of_none rfl ht) rfl rfl
  | @done s rest hs ht hg hl =>
    have hrest : rest = [] := by
      have hone := hq.sweeps
      rw [hs, List.length_cons] at hone
      exact List.length_eq_zero_iff.1 (by omega)
    refine hq.quiet ?_ (inProgress_of_none hs ht) (inProgress_nil hrest) rfl rfl
    rw [hrest]
    exact Nat.zero_le 1
  | @probe s rest t hs ht hp =>
    have hnew := inProgress_of_turn (w := { w with
      sweeps := s.probe w.started.length (s.serverName st) t :: rest
      started := w.started ++ [⟨s.id, s.serverName st, t.serverAuthAddr⟩] }) rfl rfl (by simp)
    refine ⟨hlen hs, fun hnone => ?_, fun p hp' => ?_⟩
    · rw [hnew] at hnone
      cases hnone
    · rw [hnew, Option.some.injEq] at hp'
      subst hp'
      refine ⟨?_, hq.idle (inProgress_of_read hs ht hp)⟩
      rw [List.length_append, List.length_singleton]
  | @call s rest t phase hs ht hp hp' _ =>
    have hold := inProgress_of_turn hs ht hp
    have hnew := inProgress_of_turn (w := { w with
      sweeps := { s with turn := some { t with phase := phase } } :: rest }) rfl rfl hp'
    refine ⟨hlen hs, fun hnone => ?_, fun p hpp => ?_⟩
    · rw [hnew] at hnone
      cases hnone
    · rw [hnew] at hpp
      exact hq.running p (hold.trans hpp)
  | @report s rest t status uptime hs ht hp =>
    obtain ⟨hstarted, hemitted⟩ := hq.running _ (inProgress_of_turn hs ht hp)
    have hnew := inProgress_of_none (w := { w with
      sweeps := s.endTurn :: rest, emitted := w.emitted ++ [s.result t status uptime] }) rfl rfl
    refine ⟨hlen hs, fun _ => ?_, fun p hpp => ?_⟩
    · rw [List.map_append, hemitted, hstarted, List.range_succ]
      rfl
    · rw [hnew] at hpp
      cases hpp

/-- The results so far come from the first probes, in order. -/
theorem Sequential.probes (hq : Sequential w) : ∃ n, w.emitted.map Result.probe = List.range n := by
  cases hp : w.inProgress with
  | none => exact ⟨_, hq.idle hp⟩
  | some p => exact ⟨p, (hq.running p hp).2⟩

theorem Sequential.pairwise (hq : Sequential w) (f : Result → Bool) :
    ((w.emitted.filter f).map Result.probe).Pairwise (· < ·) := by
  obtain ⟨n, hn⟩ := hq.probes
  have hsub : ((w.emitted.filter f).map Result.probe).Sublist (List.range n) := by
    rw [← hn]
    exact List.filter_sublist.map Result.probe
  exact List.pairwise_lt_range.sublist hsub

end Worker

/-! ## What the rows show -/

/-- The results handled so far, by name. -/
def World.handledLog (w : World) : List (String × Result) :=
  (w.worker.emitted.take w.handled).map fun r => (r.server, r)

structure RowsShow (w : World) : Prop where
  latest : ∀ row ∈ w.app.serverListModel, row.serverStatus ≠ none →
    ∃ r, latest row.serverName w.handledLog = some r ∧ Carries row r
  known : ∀ row ∈ w.app.serverListModel, row.serverStatus ≠ none → row.serverType = "C" ∨ row.serverType = "L"
  unconnected : w.app.serverStatusReady = 0 → ∀ row ∈ w.app.serverListModel, row.serverStatus = none
  handled : w.handled ≤ w.worker.emitted.length

section
variable {w w' : World}

theorem handledLog_grow (h : w.handled ≤ w.worker.emitted.length) (hh : w'.handled = w.handled)
    (hem : w.worker.emitted <+: w'.worker.emitted) : w'.handledLog = w.handledLog := by
  obtain ⟨rest, hrest⟩ := hem
  rw [World.handledLog, World.handledLog, hh, ← hrest, List.take_append_of_le_length h]

theorem RowsShow.grow (hs : RowsShow w) (hrows : Appends w.app w'.app) (hh : w'.handled = w.handled)
    (hem : w.worker.emitted <+: w'.worker.emitted) : RowsShow w' := by
  obtain ⟨new, hnew, hnone⟩ := hrows.rows
  have hold : ∀ row ∈ w'.app.serverListModel, row.serverStatus ≠ none → row ∈ w.app.serverListModel := by
    intro row hrow hstatus
    rw [hnew] at hrow
    rcases List.mem_append.1 hrow with hrow | hrow
    · exact hrow
    · exact absurd (hnone row hrow) hstatus
  refine ⟨fun row hrow hstatus => ?_, fun row hrow hstatus => ?_, fun hzero row hrow => ?_, ?_⟩
  · rw [handledLog_grow hs.handled hh hem]
    exact hs.latest row (hold row hrow hstatus) hstatus
  · exact hs.known row (hold row hrow hstatus) hstatus
  · have hready := hrows.serverStatusReady
    by_contra hstatus
    exact hstatus (hs.unconnected (by omega) row (hold row hrow hstatus))
  · have hlen := hem.length_le
    have hle := hs.handled
    omega

/-- A handled result is the latest of its name, and the rows of its name show it. -/
theorem rowsShow_deliver {r : Result} (hi : WorldInv w) (hs : RowsShow w)
    (hr : w.worker.emitted[w.handled]? = some r) {written : List (Row × Result)} :
    RowsShow { w with
      app := handleServerStatusWorker r.status r.server r.uptime w.app
      handled := w.handled + 1
      written := written } := by
  have hready := (handleServerStatusWorker_reports r.status r.server r.uptime w.app).serverStatusReady
  have hlog : ({ w with
      app := handleServerStatusWorker r.status r.server r.uptime w.app
      handled := w.handled + 1
      written := written } : World).handledLog = w.handledLog ++ [(r.server, r)] := by
    unfold World.handledLog
    simp only
    rw [List.take_add_one, hr, List.map_append]
    rfl
  refine ⟨fun row hrow hstatus => ?_, fun row hrow hstatus => ?_, fun hzero row hrow => ?_,
    (List.getElem?_eq_some_iff.1 hr).1⟩
  · rw [hlog, KeyTree.latest_snoc]
    rcases row_delivered hi.selected hrow with ⟨old, hold, hrec, hcarries⟩ | ⟨hold, hnot⟩
    · have hname : row.serverName = r.server :=
        (congrArg ServerRecord.serverName hrec).trans (mem_written.1 hold).2.2.1
      exact ⟨r, if_pos hname.symm, hcarries⟩
    · -- a row that is left alone although it shows a status has another name
      have hne : r.server ≠ row.serverName := by
        intro heq
        apply hnot
        refine mem_written.2 ⟨?_, hold, heq.symm, hs.known row hold hstatus⟩
        by_contra hzero
        exact hstatus (hs.unconnected (by omega) row hold)
      rw [if_neg hne]
      exact hs.latest row hold hstatus
  · rcases row_delivered hi.selected hrow with ⟨old, hold, hrec, _⟩ | ⟨hold, _⟩
    · have htype : row.serverType = old.serverType := congrArg ServerRecord.serverType hrec
      rw [htype]
      exact (mem_written.1 hold).2.2.2
    · exact hs.known row hold hstatus
  · have hzero' : w.app.serverStatusReady = 0 := hready.symm.trans hzero
    rcases row_delivered hi.selected hrow with ⟨old, hold, _, _⟩ | ⟨hold, _⟩
    · have hpos := (mem_written.1 hold).1
      omega
    · exact hs.unconnected hzero' row hold

/-- What the rows show through any run. -/
structure ShowsInv (w : World) : Prop where
  world : WorldInv w
  rows : RowsShow w

theorem showsInv_init (stores : Stores) : ShowsInv (World.init stores) where
  world := worldInv_init stores
  rows := ⟨fun _ h => (nomatch h), fun _ h => (nomatch h), fun _ _ h => (nomatch h), Nat.zero_le 0⟩

theorem showsInv_step {e : WorldEvent} (h : w.step e = some w') (hi : ShowsInv w) : ShowsInv w' := by
  refine ⟨worldInv_step h hi.world, ?_⟩
  cases e with
  | window e =>
    obtain ⟨he, app, happ, rfl⟩ := step_window h
    exact hi.rows.grow (appends_step happ he) rfl List.prefix_rfl
  | dispatch =>
    obtain ⟨worker, hw, rfl⟩ := step_dispatch h
    obtain ⟨_, rfl⟩ := Worker.dispatch_eq hw
    exact hi.rows.grow (.of_eq rfl rfl) rfl List.prefix_rfl
  | worker e =>
    obtain ⟨worker, hw, rfl⟩ := step_worker h
    exact hi.rows.grow (.of_eq rfl rfl) rfl (Worker.moves_emitted hw)
  | deliver =>
    obtain ⟨r, hr, rfl⟩ := step_deliver h
    exact rowsShow_deliver hi.world hi.rows hr

/-! ## A row keeps its place, and its status once it has one -/

/-- Every row is still there, under its record, and shows a status if it did. -/
def Keeps (w w' : World) : Prop :=
  ∀ (i : Nat) (row : Row), w.app.serverListModel[i]? = some row →
    ∃ row' : Row, w'.app.serverListModel[i]? = some row' ∧ row'.record = row.record ∧
      (row.serverStatus ≠ none → row'.serverStatus ≠ none)

theorem Keeps.refl (w : World) : Keeps w w := fun _ row h => ⟨row, h, rfl, id⟩

theorem Keeps.trans {a b c : World} (h : Keeps a b) (h' : Keeps b c) : Keeps a c := by
  intro i row hrow
  obtain ⟨row₁, hrow₁, hrec₁, hstatus₁⟩ := h i row hrow
  obtain ⟨row₂, hrow₂, hrec₂, hstatus₂⟩ := h' i row₁ hrow₁
  exact ⟨row₂, hrow₂, hrec₂.trans hrec₁, fun hs => hstatus₂ (hstatus₁ hs)⟩

theorem Appends.keeps (h : Appends w.app w'.app) : Keeps w w' := by
  obtain ⟨new, hnew, _⟩ := h.rows
  intro i row hrow
  refine ⟨row, ?_, rfl, id⟩
  rw [hnew, List.getElem?_append_left (List.getElem?_eq_some_iff.1 hrow).1]
  exact hrow

/-- A handled result reaches each row of its name that is there, once `get_server_status` is connected. -/
theorem row_after_deliver {r : Result} (hs : Selected w.app) {i : Nat} {row : Row}
    (hrow : w.app.serverListModel[i]? = some row) :
    ∃ row', (handleServerStatusWorker r.status r.server r.uptime w.app).serverListModel[i]? = some row' ∧
      row'.record = row.record ∧ (row.serverStatus ≠ none → row'.serverStatus ≠ none) ∧
      (0 < w.app.serverStatusReady → writes r.server row → row'.serverStatus ≠ none) := by
  rw [handleServerStatusWorker_rows hs]
  split
  · rename_i hzero
    exact ⟨row, hrow, rfl, id, fun hpos => by omega⟩
  · refine ⟨statusRow (statusOf r.status r.server r.uptime w.app) row, ?_, statusRow_record _ row, ?_, ?_⟩
    · rw [List.getElem?_map, hrow]
      rfl
    · intro hstatus
      by_cases hw : writes r.server row
      · simp [(statusRow_of_writes (s := statusOf r.status r.server r.uptime w.app) hw).1]
      · rwa [statusRow_of_not_writes hw]
    · intro _ hw
      simp [(statusRow_of_writes (s := statusOf r.status r.server r.uptime w.app) hw).1]

theorem keeps_step {e : WorldEvent} (h : w.step e = some w') (hs : Selected w.app) : Keeps w w' := by
  cases e with
  | window e =>
    obtain ⟨he, app, happ, rfl⟩ := step_window h
    exact (appends_step happ he).keeps
  | dispatch =>
    obtain ⟨worker, _, rfl⟩ := step_dispatch h
    exact Keeps.refl w
  | worker e =>
    obtain ⟨worker, _, rfl⟩ := step_worker h
    exact Keeps.refl w
  | deliver =>
    obtain ⟨r, _, rfl⟩ := step_deliver h
    intro i row hrow
    obtain ⟨row', hrow', hrec, hstatus, _⟩ := row_after_deliver (r := r) hs hrow
    exact ⟨row', hrow', hrec, hstatus⟩

theorem keeps_run {es : List WorldEvent} (h : Runs.run World.step w es = some w') (hs : Selected w.app) :
    Keeps w w' :=
  Runs.run_rel Keeps.refl Keeps.trans world_selected keeps_step h hs

/-- Results are handled one at a time, and by `deliver` only. -/
theorem handled_step {e : WorldEvent} (h : w.step e = some w') :
    w'.handled = w.handled + (match e with | .deliver => 1 | _ => 0) := by
  cases e with
  | window e =>
    obtain ⟨_, app, _, rfl⟩ := step_window h
    rfl
  | dispatch =>
    obtain ⟨worker, _, rfl⟩ := step_dispatch h
    rfl
  | worker e =>
    obtain ⟨worker, _, rfl⟩ := step_worker h
    rfl
  | deliver =>
    obtain ⟨r, _, rfl⟩ := step_deliver h
    rfl

theorem reports_deliver (h : w.step .deliver = some w') : Reports w.app w'.app := by
  obtain ⟨r, _, rfl⟩ := step_deliver h
  exact handleServerStatusWorker_reports r.status r.server r.uptime w.app

theorem emitted_step {e : WorldEvent} (h : w.step e = some w') : w.worker.emitted <+: w'.worker.emitted := by
  cases e with
  | window e =>
    obtain ⟨_, app, _, rfl⟩ := step_window h
    exact List.prefix_rfl
  | dispatch =>
    obtain ⟨worker, hw, rfl⟩ := step_dispatch h
    obtain ⟨_, rfl⟩ := Worker.dispatch_eq hw
    exact List.prefix_rfl
  | worker e =>
    obtain ⟨worker, hw, rfl⟩ := step_worker h
    exact Worker.moves_emitted hw
  | deliver =>
    obtain ⟨r, _, rfl⟩ := step_deliver h
    exact List.prefix_rfl

theorem emitted_run {es : List WorldEvent} (h : Runs.run World.step w es = some w') :
    w.worker.emitted <+: w'.worker.emitted :=
  @Runs.run_rel _ _ World.step (fun v v' => v.worker.emitted <+: v'.worker.emitted) (fun _ => True)
    (fun _ => List.prefix_rfl) List.IsPrefix.trans (fun _ _ => trivial) (fun hv _ => emitted_step hv) _ _ _ h trivial

/-- A place of a log holds the same entry when the log has grown. -/
theorem getElem?_of_grown {α : Type} {l l' : List α} (h : l <+: l') {i : Nat} {a : α} (ha : l[i]? = some a) :
    l'[i]? = some a := by
  obtain ⟨hlt, hget⟩ := List.getElem?_eq_some_iff.1 ha
  rw [← hget]
  exact List.prefix_iff_getElem?.1 h i hlt

theorem mem_drop_of_getElem? {α : Type} {l : List α} {i n : Nat} {a : α} (hn : n ≤ i) (ha : l[i]? = some a) :
    a ∈ l.drop n := by
  have hdrop : (l.drop n)[i - n]? = some a := by rw [List.getElem?_drop, Nat.add_sub_cancel' hn, ha]
  exact List.mem_of_getElem? hdrop

/-- Each handled result was handled at some step of the run. -/
theorem exists_deliver {stores : Stores} {events : List WorldEvent} {k : Nat} {r : Result}
    (h : Runs.run World.step (World.init stores) events = some w) (hk : k < w.handled)
    (hr : w.worker.emitted[k]? = some r) :
    ∃ before after v v', events = before ++ .deliver :: after ∧
      Runs.run World.step (World.init stores) before = some v ∧ v.step .deliver = some v' ∧
      Runs.run World.step v' after = some w ∧ v.handled = k ∧ v.worker.emitted[v.handled]? = some r := by
  have hone : ∀ {v : World} {e v'}, v.step e = some v' → v'.handled ≤ v.handled + 1 := by
    intro v e v' hv
    rw [handled_step hv]
    split <;> omega
  obtain ⟨before, e, after, v, v', rfl, hv, hstep, hafter, hcount, hcount'⟩ :=
    Runs.exists_step_of_count hone h (Nat.zero_le k) hk
  obtain rfl : e = .deliver := by
    have hadd := handled_step hstep
    cases e with
    | deliver => rfl
    | window e | dispatch | worker e =>
      simp only at hadd
      omega
  refine ⟨before, after, v, v', rfl, hv, hstep, hafter, hcount, ?_⟩
  -- what is handled there is the result at its place in the end
  obtain ⟨r', hr', -⟩ := step_deliver hstep
  have hat := getElem?_of_grown ((emitted_step hstep).trans (emitted_run hafter)) hr'
  rw [hcount, hr] at hat
  rw [hr', hat]

/-- Where the last result of a name met its rows, the list has rows of that name and each shows a status. -/
theorem status_of_findsRows {stores : Stores} {events : List WorldEvent} {k : Nat} {r : Result}
    (h : Runs.run World.step (World.init stores) events = some w) (hsettled : Settled w)
    (hf : Runs.AllSteps World.step (FindsRows w) (World.init stores) events) (hr : w.worker.emitted[k]? = some r)
    (hlast : ∀ later ∈ w.worker.emitted.drop (k + 1), later.server ≠ r.server) :
    (∃ row ∈ w.app.serverListModel, row.serverName = r.server) ∧
      ∀ row ∈ w.app.serverListModel, row.serverName = r.server → row.serverStatus ≠ none := by
  have hk : k < w.handled := hsettled.2 ▸ (List.getElem?_eq_some_iff.1 hr).1
  obtain ⟨before, after, v, v', rfl, hv, hstep, hafter, hcount, hr'⟩ := exists_deliver h hk hr
  have hsel : Selected v.app := (Runs.run_inv worldInv_step hv (worldInv_init stores)).selected
  obtain ⟨hready, ⟨row₀, hrow₀, hname₀⟩, htype, hnew⟩ :=
    (Runs.allSteps_iff_at h).1 hf before .deliver after v v' rfl hv hstep hafter hsettled r hr'
      (by rw [hcount]; exact hlast)
  have hkeeps := keeps_run hafter (world_selected hstep hsel)
  obtain ⟨r', hr'', rfl⟩ := step_deliver hstep
  obtain rfl : r' = r := Option.some.inj (hr''.symm.trans hr')
  -- a row that was there has got the result, and keeps a status
  have hstatus : ∀ (i : Nat) (row : Row), v.app.serverListModel[i]? = some row → row.serverName = r'.server →
      ∃ row' : Row, w.app.serverListModel[i]? = some row' ∧ row'.serverName = r'.server ∧
        row'.serverStatus ≠ none := by
    intro i row hrow hname
    have hw : writes r'.server row := by
      simp only [writes, decide_eq_true_eq]
      exact ⟨hname.symm, htype row (List.mem_of_getElem? hrow) hname⟩
    obtain ⟨row₁, hrow₁, hrec₁, _, hgot⟩ := row_after_deliver (r := r') hsel hrow
    obtain ⟨row₂, hrow₂, hrec₂, hkept⟩ := hkeeps i row₁ hrow₁
    refine ⟨row₂, hrow₂, ?_, hkept (hgot hready hw)⟩
    have hrec : row₂.record = row.record := hrec₂.trans hrec₁
    exact (congrArg ServerRecord.serverName hrec).trans hname
  constructor
  · obtain ⟨i, hi⟩ := List.mem_iff_getElem?.1 hrow₀
    obtain ⟨row', hrow', hname', _⟩ := hstatus i row₀ hi hname₀
    exact ⟨row', List.mem_of_getElem? hrow', hname'⟩
  · intro row hrow hname
    obtain ⟨i, hi⟩ := List.mem_iff_getElem?.1 hrow
    have hlt : i < v.app.serverListModel.length := by
      by_contra hge
      exact hnew row (mem_drop_of_getElem? (by omega) hi) hname
    obtain ⟨row₁, hrow₁⟩ : ∃ row₁, v.app.serverListModel[i]? = some row₁ := ⟨_, List.getElem?_eq_getElem hlt⟩
    obtain ⟨row₂, hrow₂, hrec₂, _⟩ := (keeps_step hstep hsel).trans hkeeps i row₁ hrow₁
    obtain rfl : row₂ = row := Option.some.inj (hrow₂.symm.trans hi)
    have hname₁ : row₁.serverName = r'.server :=
      (congrArg ServerRecord.serverName hrec₂).symm.trans hname
    obtain ⟨row₃, hrow₃, _, hgot⟩ := hstatus i row₁ hrow₁ hname₁
    obtain rfl : row₃ = row₂ := Option.some.inj (hrow₃.symm.trans hi)
    exact hgot

/-! ## A row without a status waits for the next result of its name -/

/-- The rows of a name that show a status did so before. -/
def Silent (name : String) (w w' : World) : Prop :=
  ∀ (i : Nat) (row : Row), w'.app.serverListModel[i]? = some row → row.serverName = name →
    row.serverStatus ≠ none → w.app.serverListModel[i]? = some row

theorem Appends.silent (h : Appends w.app w'.app) (name : String) : Silent name w w' := by
  obtain ⟨new, hnew, hnone⟩ := h.rows
  intro i row hrow _ hstatus
  rw [hnew] at hrow
  by_cases hlt : i < w.app.serverListModel.length
  · rwa [List.getElem?_append_left hlt] at hrow
  · rw [List.getElem?_append_right (by omega)] at hrow
    exact absurd (hnone row (List.mem_of_getElem? hrow)) hstatus

/-- No step but the handling of a result of its name gives a row a status. -/
theorem silent_step {name : String} {e : WorldEvent} (h : w.step e = some w') (hs : Selected w.app)
    (hname : ∀ r, w.worker.emitted[w.handled]? = some r → e = .deliver → r.server ≠ name) : Silent name w w' := by
  cases e with
  | window e =>
    obtain ⟨he, app, happ, rfl⟩ := step_window h
    exact (appends_step happ he).silent name
  | dispatch =>
    obtain ⟨worker, _, rfl⟩ := step_dispatch h
    exact fun i row hrow _ _ => hrow
  | worker e =>
    obtain ⟨worker, _, rfl⟩ := step_worker h
    exact fun i row hrow _ _ => hrow
  | deliver =>
    obtain ⟨r, hr, rfl⟩ := step_deliver h
    intro i row hrow hrowName _
    change (handleServerStatusWorker r.status r.server r.uptime w.app).serverListModel[i]? = some row at hrow
    rw [handleServerStatusWorker_rows hs] at hrow
    split at hrow
    · exact hrow
    · rw [List.getElem?_map, Option.map_eq_some_iff] at hrow
      obtain ⟨old, hold, rfl⟩ := hrow
      have hoName : old.serverName = name :=
        (congrArg ServerRecord.serverName (statusRow_record _ old)).symm.trans hrowName
      have hnot : ¬ writes r.server old := by
        simp only [writes, decide_eq_true_eq]
        exact fun hw => hname r hr rfl (hw.1.trans hoName)
      rwa [statusRow_of_not_writes (s := statusOf r.status r.server r.uptime w.app) hnot]

theorem silent_run {name : String} {k : Nat} {w' : World}
    (hlast : ∀ later ∈ w'.worker.emitted.drop (k + 1), later.server ≠ name) :
    ∀ {es : List WorldEvent} {w : World}, Runs.run World.step w es = some w' → Selected w.app → k < w.handled →
      Silent name w w'
  | [], w, h, _, _ => by
    simp only [Runs.run_nil, Option.some.injEq] at h
    subst h
    exact fun i row hrow _ _ => hrow
  | e :: es, w, h, hs, hk => by
    obtain ⟨v, hv, hrun⟩ := Runs.run_cons.1 h
    have hprefix := (emitted_step hv).trans (emitted_run hrun)
    have hnext : Silent name w v := by
      refine silent_step hv hs fun r hr _ => hlast r ?_
      exact mem_drop_of_getElem? hk (getElem?_of_grown hprefix hr)
    have hadd := handled_step hv
    have hrest : Silent name v w' := silent_run hlast hrun (world_selected hv hs) (by omega)
    intro i row hrow hname hstatus
    exact hnext i row (hrest i row hrow hname hstatus) hname hstatus

/-- Where the list has rows of a name and each shows a status, the last result of the name met its rows. -/
theorem findsRows_of_status {stores : Stores} {before after : List WorldEvent} {v v' : World} {r : Result}
    (hv : Runs.run World.step (World.init stores) before = some v) (hstep : v.step .deliver = some v')
    (hafter : Runs.run World.step v' after = some w)
    (hlast : ∀ later ∈ w.worker.emitted.drop (v.handled + 1), later.server ≠ r.server)
    (hrow : ∃ row ∈ w.app.serverListModel, row.serverName = r.server)
    (hstatus : ∀ row ∈ w.app.serverListModel, row.serverName = r.server → row.serverStatus ≠ none) :
    0 < v.app.serverStatusReady ∧ (∃ row ∈ v.app.serverListModel, row.serverName = r.server) ∧
      (∀ row ∈ v.app.serverListModel, row.serverName = r.server → row.serverType = "C" ∨ row.serverType = "L") ∧
      ∀ row ∈ w.app.serverListModel.drop v.app.serverListModel.length, row.serverName ≠ r.server := by
  have hshows' : ShowsInv v' := Runs.run_inv showsInv_step
    (Runs.run_append.2 ⟨v, hv, (Runs.run_singleton v _).trans hstep⟩) (showsInv_init stores)
  have hsel : Selected v.app := (Runs.run_inv showsInv_step hv (showsInv_init stores)).world.selected
  have hsilent : Silent r.server v' w := by
    have hadd : v'.handled = v.handled + 1 := handled_step hstep
    exact silent_run hlast hafter hshows'.world.selected (by omega)
  have hreports := reports_deliver hstep
  have hlen := congrArg List.length hreports.records
  rw [List.length_map, List.length_map] at hlen
  -- a row of the name was there when the result came, and showed a status right after
  have hwas : ∀ (i : Nat) (row : Row), w.app.serverListModel[i]? = some row → row.serverName = r.server →
      i < v.app.serverListModel.length ∧ 0 < v.app.serverStatusReady ∧
        (row.serverType = "C" ∨ row.serverType = "L") := by
    intro i row hi hname
    have hne := hstatus row (List.mem_of_getElem? hi) hname
    have hthen := hsilent i row hi hname hne
    have hmem := List.mem_of_getElem? hthen
    refine ⟨hlen ▸ (List.getElem?_eq_some_iff.1 hthen).1, ?_, hshows'.rows.known row hmem hne⟩
    by_contra hzero
    have hzero' := hreports.serverStatusReady
    exact hne (hshows'.rows.unconnected (hzero'.trans (by omega)) row hmem)
  have hkeeps := (keeps_step hstep hsel).trans (keeps_run hafter hshows'.world.selected)
  obtain ⟨row₀, hrow₀, hname₀⟩ := hrow
  obtain ⟨i₀, hi₀⟩ := List.mem_iff_getElem?.1 hrow₀
  obtain ⟨hlt₀, hready, _⟩ := hwas i₀ row₀ hi₀ hname₀
  refine ⟨hready, ?_, fun row hmem hname => ?_, fun row hmem hname => ?_⟩
  · obtain ⟨row₁, hrow₁, hrec, _⟩ := hkeeps i₀ _ (List.getElem?_eq_getElem hlt₀)
    obtain rfl : row₁ = row₀ := Option.some.inj (hrow₁.symm.trans hi₀)
    exact ⟨_, List.getElem_mem hlt₀, (congrArg ServerRecord.serverName hrec).symm.trans hname₀⟩
  · obtain ⟨i, hi⟩ := List.mem_iff_getElem?.1 hmem
    obtain ⟨row₁, hrow₁, hrec, _⟩ := hkeeps i row hi
    have htype : row₁.serverType = row.serverType := congrArg ServerRecord.serverType hrec
    rw [← htype]
    exact (hwas i row₁ hrow₁ ((congrArg ServerRecord.serverName hrec).trans hname)).2.2
  · obtain ⟨i, hi⟩ := List.mem_iff_getElem?.1 hmem
    rw [List.getElem?_drop] at hi
    have hlt := (hwas _ row hi hname).1
    omega

/-! ## Runs without a nested call -/

structure OrderInv (w : World) : Prop extends ShowsInv w where
  sequential : w.worker.Sequential

theorem orderInv_init (stores : Stores) : OrderInv (World.init stores) where
  toShowsInv := showsInv_init stores
  sequential := ⟨Nat.zero_le 1, fun _ => rfl, fun _ h => nomatch h⟩

theorem orderInv_step {e : WorldEvent} (h : w.step e = some w') (hc : OneSweep w e) (hi : OrderInv w) :
    OrderInv w' := by
  refine ⟨showsInv_step h hi.toShowsInv, ?_⟩
  cases e with
  | window e =>
    obtain ⟨_, app, _, rfl⟩ := step_window h
    exact hi.sequential
  | dispatch =>
    obtain ⟨worker, hw, rfl⟩ := step_dispatch h
    exact Worker.sequential_dispatch hi.sequential hc hw
  | worker e =>
    obtain ⟨worker, hw, rfl⟩ := step_worker h
    exact Worker.sequential_moves hi.sequential hw
  | deliver =>
    obtain ⟨r, _, rfl⟩ := step_deliver h
    exact hi.sequential

theorem OrderInv.emittedInOrder (hi : OrderInv w) : EmittedInOrder w where
  byName := fun _ => hi.sequential.pairwise _
  byGroup := fun _ _ => hi.sequential.pairwise _

/-- When no call is in progress, the results are those of the probes, in order. -/
theorem OrderInv.emitted_at (hi : OrderInv w) (hidle : w.worker.sweeps = []) {i : Nat} :
    (∀ p, w.worker.started[i]? = some p → ∃ r, w.worker.emitted[i]? = some r ∧ r.server = p.serverName) ∧
      ∀ r, w.worker.emitted[i]? = some r →
        r.probe = i ∧ ∃ p, w.worker.started[i]? = some p ∧ p.serverName = r.server := by
  have hprobes := hi.sequential.idle (Worker.inProgress_nil hidle)
  have hat : ∀ r, w.worker.emitted[i]? = some r →
      r.probe = i ∧ ∃ p, w.worker.started[i]? = some p ∧ p.serverName = r.server := by
    intro r hr
    have hget : (w.worker.emitted.map Result.probe)[i]? = some r.probe := by
      rw [List.getElem?_map, hr]
      rfl
    rw [hprobes, List.getElem?_eq_some_iff] at hget
    obtain ⟨_, hget⟩ := hget
    rw [List.getElem_range] at hget
    have hrec := hi.world.recorded.emitted r (List.mem_of_getElem? hr)
    rw [← hget] at hrec
    exact ⟨hget.symm, _, hrec, rfl⟩
  refine ⟨fun p hp => ?_, hat⟩
  have hlen : w.worker.emitted.length = w.worker.started.length := by
    have := congrArg List.length hprobes
    rwa [List.length_map, List.length_range] at this
  have hlt : i < w.worker.emitted.length := by
    have := (List.getElem?_eq_some_iff.1 hp).1
    omega
  obtain ⟨_, q, hq, hserver⟩ := hat _ (List.getElem?_eq_getElem hlt)
  rw [hp, Option.some.injEq] at hq
  exact ⟨_, List.getElem?_eq_getElem hlt, hserver.symm.trans (congrArg Probe.serverName hq.symm)⟩

/-- When all is done, the latest result of a name is that of its last probe. -/
theorem OrderInv.latest_probe (hi : OrderInv w) (hidle : w.worker.sweeps = [])
    (hall : w.handled = w.worker.emitted.length) {name : String} {r : Result}
    (hlatest : latest name w.handledLog = some r) :
    r ∈ w.worker.emitted ∧ (∃ p, w.worker.started[r.probe]? = some p ∧ p.serverName = name) ∧
      ∀ id p, w.worker.started[id]? = some p → p.serverName = name → id ≤ r.probe := by
  have hlog : w.handledLog = w.worker.emitted.map fun r => (r.server, r) := by
    rw [World.handledLog, hall, List.take_length]
  obtain ⟨i, hi', hlast⟩ := KeyTree.exists_index_of_latest hlatest
  rw [hlog, List.getElem?_map, Option.map_eq_some_iff] at hi'
  obtain ⟨r', hr', heq⟩ := hi'
  obtain ⟨rfl, rfl⟩ := Prod.mk.inj heq
  obtain ⟨hprobe, hstarted⟩ := (hi.emitted_at hidle).2 r' hr'
  refine ⟨List.mem_of_getElem? hr', by rwa [hprobe], fun id p hp hname => ?_⟩
  obtain ⟨x, hx, hserver⟩ := (hi.emitted_at hidle).1 p hp
  have hle := hlast id x (by
    rw [hlog, List.getElem?_map, hx, Option.map_some, hserver, hname])
  rwa [hprobe]

/-- No result of a name comes after a place exactly when no probe of that name does. -/
theorem OrderInv.last_iff (hi : OrderInv w) (hidle : w.worker.sweeps = []) {id : Nat} {name : String} :
    (∀ later ∈ w.worker.emitted.drop (id + 1), later.server ≠ name) ↔
      ∀ id' p', w.worker.started[id']? = some p' → p'.serverName = name → id' ≤ id := by
  constructor
  · intro hlast id' p' hp' hpname
    obtain ⟨x, hx, hserver⟩ := (hi.emitted_at hidle).1 p' hp'
    by_contra hlt
    exact hlast x (mem_drop_of_getElem? (by omega) hx) (hserver.trans hpname)
  · intro hlast later hlater heq
    obtain ⟨j, hj⟩ := List.mem_iff_getElem?.1 hlater
    rw [List.getElem?_drop] at hj
    obtain ⟨_, q, hq, hqname⟩ := (hi.emitted_at hidle).2 later hj
    have hle := hlast _ q hq (hqname.trans heq)
    omega

end

/-- Two servers, and two dispatcher calls one after the other. In the first the ping of `Main` fails and `Test` answers,
in the second it is the other way round. -/
def twoSweeps : List WorldEvent :=
  [.window .fetchServerList, .window (.serversReply none), .window (.addToServerList "Main" "10.0.0.1"),
    .window (.addToServerList "Test" "10.0.0.2"), .dispatch, .worker .advance,
    .worker .advance, .worker .advance, .worker (.returns (some .invalid) 0 0), .worker (.returns none 0 0),
    .worker .advance, .worker .advance, .worker (.returns (some .invalid) 0 0),
    .worker (.returns (some .invalid) 0 0), .worker (.returns (some (.int 0)) 0 86400), .deliver, .deliver,
    .worker .advance, .dispatch, .worker .advance,
    .worker .advance, .worker .advance, .worker (.returns (some .invalid) 0 0),
    .worker (.returns (some .invalid) 0 0), .worker (.returns (some (.int 0)) 0 172800),
    .worker .advance, .worker .advance, .worker (.returns (some .invalid) 0 0), .worker (.returns none 0 0),
    .worker .advance, .deliver, .deliver]

end SegsLauncher
