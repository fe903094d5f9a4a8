import SegsLauncher.Launcher
/-!
# The status worker (Worker.cpp, on its own thread)

`server_status_dispatcher` visits the saved servers one after the other and probes each by RPC. The
calls of the RPC client run the worker thread's pending events while they wait
(`json_rpc_client.cpp:76-80`), so another dispatcher call can run inside a probe: the calls in progress
form a stack. The main thread keeps writing the settings meanwhile, so every read is a step of its own.

| here | there |
| --- | --- |
| `Sweep`                  | the local variables of one `server_status_dispatcher` call (`Worker.cpp:22`) |
| `Turn`                   | one turn of either of its loops; `phase` is where it waits |
| `fetchServerStatus`      | `fetch_server_status` (`:53`), from the end of one call to the next call or to its signal |
| `Result`                 | one `serverStatusWorkerReady(status, server, uptime)` |
| `Worker.dispatch`        | the worker thread takes a `getServerStatus` signal |
| `Worker.step`            | the innermost dispatcher call goes on |

`id`, `probe`, `sweep`, `loop`, `group` and `authAddr` of a result, and the log `started`, are not in the
source: they record which probe of which call a signal belongs to.
-/
namespace SegsLauncher

/-- The two loops of `server_status_dispatcher`. -/
inductive Loop where
  | communityServers
  | localServers
deriving DecidableEq, Repr

inductive Phase where
  | readServerName
  | connectToServer
  | ping
  | getStartTime
deriving DecidableEq, Repr

/-- How many steps a turn can still take. -/
def Phase.work : Phase → Nat
  | .readServerName => 4
  | .connectToServer => 3
  | .ping => 2
  | .getStartTime => 1

structure Turn where
  group : String
  serverAuthAddr : String
  serverName : String
  phase : Phase
  probe : Nat

structure Sweep where
  id : Nat
  settings : QSettings
  loop : Loop
  /-- What is left of the `childGroups()` the loop runs over. -/
  groups : List String
  turn : Option Turn

structure Probe where
  sweep : Nat
  serverName : String
  authAddr : String
deriving DecidableEq, Repr

structure Result where
  status : Bool
  server : String
  uptime : String
  sweep : Nat
  loop : Loop
  group : String
  probe : Nat
  authAddr : String
deriving DecidableEq, Repr

structure Worker where
  /-- The dispatcher calls in progress, innermost first. -/
  sweeps : List Sweep := []
  dispatched : Nat := 0
  started : List Probe := []
  emitted : List Result := []

/-! ## `fetch_server_status` -/

/-- `start_date.daysTo(current_date)`: the difference of the local calendar dates. -/
def daysTo (utcOffset start current : Int) : Int := (current + utcOffset) / 86400 - (start + utcOffset) / 86400

/-- `uptime_days` (`Worker.cpp:71-74`) -/
def uptimeDays (res : QVariant) (utcOffset now : Int) : String :=
  (QVariant.int (daysTo utcOffset res.toInt now)).toString

/-- The default of the signal's last argument (`Worker.h:15`). -/
def noUptime : String := "?"

/-- Where `fetch_server_status` goes when the call it waits in ends (`none` on a failure or a timeout): on
to another call, or to its `serverStatusWorkerReady`. -/
def fetchServerStatus (result : Option QVariant) (utcOffset now : Int) : Phase → Option (Phase ⊕ Bool × String)
  | .readServerName => none
  | .connectToServer =>
    match result with
    | none => some (.inr (false, noUptime))
    | some _ => some (.inl .ping)
  | .ping =>
    match result with
    | some _ => some (.inl .getStartTime)
    | none => some (.inr (false, noUptime))
  | .getStartTime =>
    match result with
    | some res => some (.inr (true, uptimeDays res utcOffset now))
    | none => some (.inr (false, noUptime))

/-! ## `server_status_dispatcher` -/

def Loop.settings : Loop → QSettings
  | .communityServers => (QSettings.new.beginGroup "ServerConfig").beginGroup "CommunityServers"
  | .localServers => (QSettings.new.beginGroup "ServerConfig").beginGroup "LocalServers"

/-- A new call, up to the head of its first loop. -/
def serverStatusDispatcher (id : Nat) (st : Store) : Sweep :=
  let settings := QSettings.new
  let settings := settings.beginGroup "ServerConfig"
  let settings := settings.beginGroup "CommunityServers"
  { id := id, settings := settings, loop := .communityServers, groups := settings.childGroups st, turn := none }

namespace Sweep

/-- The loop begins a turn and reads the address. -/
def beginTurn (st : Store) (group : String) (groups : List String) (s : Sweep) : Sweep :=
  let settings := s.settings.beginGroup group
  let serverAuthAddr := (settings.value st "ServerIP" (.string "")).toString
  { s with settings := settings, groups := groups, turn := some ⟨group, serverAuthAddr, "", .readServerName, 0⟩ }

/-- The first loop has ended, the second one begins. -/
def nextLoop (st : Store) (s : Sweep) : Sweep :=
  let settings := s.settings.endGroup
  let settings := settings.beginGroup "LocalServers"
  { s with settings := settings, loop := .localServers, groups := settings.childGroups st }

/-- The second read of a turn. -/
def serverName (st : Store) (s : Sweep) : String := (s.settings.value st "ServerName" (.string "")).toString

/-- `fetch_server_status` is called. -/
def probe (id : Nat) (serverName : String) (t : Turn) (s : Sweep) : Sweep :=
  { s with turn := some { t with serverName := serverName, phase := .connectToServer, probe := id } }

/-- `fetch_server_status` has returned. -/
def endTurn (s : Sweep) : Sweep := { s with settings := s.settings.endGroup, turn := none }

/-- What the signal of a turn carries, and whose it is. -/
def result (t : Turn) (status : Bool) (uptime : String) (s : Sweep) : Result :=
  { status := status, server := t.serverName, uptime := uptime, sweep := s.id, loop := s.loop, group := t.group,
    probe := t.probe, authAddr := t.serverAuthAddr }

end Sweep

namespace Worker

/-- The thread runs pending events: it is idle, or waits in `call`; `connectToServer` runs none. -/
def runsEvents (w : Worker) : Bool :=
  match w.sweeps with
  | [] => true
  | s :: _ =>
    match s.turn with
    | some t => t.phase = .ping ∨ t.phase = .getStartTime
    | none => false

def dispatch (st : Store) (w : Worker) : Option Worker :=
  if w.runsEvents then
    some { w with sweeps := serverStatusDispatcher w.dispatched st :: w.sweeps, dispatched := w.dispatched + 1 }
  else none

inductive Event where
  /-- The dispatcher runs to its next read, call or end. -/
  | advance
  /-- The call the probe waits in ends. -/
  | returns (result : Option QVariant) (utcOffset now : Int)

def step (st : Store) (w : Worker) : Event → Option Worker
  | .advance =>
    match w.sweeps with
    | [] => none
    | s :: rest =>
      match s.turn with
      | none =>
        match s.groups with
        | group :: groups => some { w with sweeps := s.beginTurn st group groups :: rest }
        | [] =>
          match s.loop with
          | .communityServers => some { w with sweeps := s.nextLoop st :: rest }
          | .localServers => some { w with sweeps := rest }
      | some t =>
        if t.phase = .readServerName then
          let serverName := s.serverName st
          some { w with
            sweeps := s.probe w.started.length serverName t :: rest
            started := w.started ++ [⟨s.id, serverName, t.serverAuthAddr⟩] }
        else none
  | .returns result utcOffset now =>
    match w.sweeps with
    | [] => none
    | s :: rest =>
      match s.turn with
      | none => none
      | some t =>
        match fetchServerStatus result utcOffset now t.phase with
        | none => none
        | some (.inl phase) => some { w with sweeps := { s with turn := some { t with phase := phase } } :: rest }
        | some (.inr (status, uptime)) =>
          some { w with sweeps := s.endTurn :: rest, emitted := w.emitted ++ [s.result t status uptime] }

/-- What a step of the innermost call can be. -/
inductive Moves (st : Store) (w : Worker) : Worker → Prop
  | beginTurn {s : Sweep} {rest : List Sweep} {group : String} {groups : List String}
      (hs : w.sweeps = s :: rest) (ht : s.turn = none) (hg : s.groups = group :: groups) :
      Moves st w { w with sweeps := s.beginTurn st group groups :: rest }
  | nextLoop {s : Sweep} {rest : List Sweep} (hs : w.sweeps = s :: rest) (ht : s.turn = none)
      (hg : s.groups = []) (hl : s.loop = .communityServers) :
      Moves st w { w with sweeps := s.nextLoop st :: rest }
  | done {s : Sweep} {rest : List Sweep} (hs : w.sweeps = s :: rest) (ht : s.turn = none)
      (hg : s.groups = []) (hl : s.loop = .localServers) : Moves st w { w with sweeps := rest }
  | probe {s : Sweep} {rest : List Sweep} {t : Turn} (hs : w.sweeps = s :: rest) (ht : s.turn = some t)
      (hp : t.phase = .readServerName) :
      Moves st w { w with
        sweeps := s.probe w.started.length (s.serverName st) t :: rest
        started := w.started ++ [⟨s.id, s.serverName st, t.serverAuthAddr⟩] }
  | call {s : Sweep} {rest : List Sweep} {t : Turn} {phase : Phase} (hs : w.sweeps = s :: rest)
      (ht : s.turn = some t) (hp : t.phase ≠ .readServerName) (hp' : phase ≠ .readServerName)
      (hw : phase.work < t.phase.work) :
      Moves st w { w with sweeps := { s with turn := some { t with phase := phase } } :: rest }
  | report {s : Sweep} {rest : List Sweep} {t : Turn} {status : Bool} {uptime : String}
      (hs : w.sweeps = s :: rest) (ht : s.turn = some t) (hp : t.phase ≠ .readServerName) :
      Moves st w { w with sweeps := s.endTurn :: rest, emitted := w.emitted ++ [s.result t status uptime] }

theorem fetchServerStatus_call {result : Option QVariant} {utcOffset now : Int} {phase phase' : Phase}
    (h : fetchServerStatus result utcOffset now phase = some (.inl phase')) :
    phase ≠ .readServerName ∧ phase' ≠ .readServerName ∧ phase'.work < phase.work := by
  cases phase <;> cases result <;> simp [fetchServerStatus] at h <;> subst h <;> decide

theorem fetchServerStatus_report {result : Option QVariant} {utcOffset now : Int} {phase : Phase}
    {report : Bool × String} (h : fetchServerStatus result utcOffset now phase = some (.inr report)) :
    phase ≠ .readServerName := by
  rintro rfl
  cases h

/-- **Every call of a probe leads on**: to another call, or to exactly one signal. -/
theorem fetchServerStatus_isSome (result : Option QVariant) (utcOffset now : Int) {phase : Phase}
    (h : phase ≠ .readServerName) : (fetchServerStatus result utcOffset now phase).isSome := by
  cases phase with
  | readServerName => exact absurd rfl h
  | connectToServer | ping | getStartTime => cases result <;> rfl

theorem step_moves {st : Store} {w w' : Worker} {e : Event} (h : w.step st e = some w') : Moves st w w' := by
  cases e with
  | advance =>
    simp only [step] at h
    cases hs : w.sweeps with
    | nil => rw [hs] at h; cases h
    | cons s rest =>
      rw [hs] at h
      simp only at h
      cases ht : s.turn with
      | none =>
        rw [ht] at h
        simp only at h
        cases hg : s.groups with
        | cons group groups =>
          rw [hg] at h
          obtain rfl := Option.some.inj h
          exact .beginTurn hs ht hg
        | nil =>
          rw [hg] at h
          simp only at h
          cases hl : s.loop with
          | communityServers =>
            rw [hl] at h
            obtain rfl := Option.some.inj h
            exact .nextLoop hs ht hg hl
          | localServers =>
            rw [hl] at h
            obtain rfl := Option.some.inj h
            exact .done hs ht hg hl
      | some t =>
        rw [ht] at h
        simp only [Option.ite_none_right_eq_some] at h
        obtain ⟨hp, h⟩ := h
        obtain rfl := Option.some.inj h
        exact .probe hs ht hp
  | returns result utcOffset now =>
    simp only [step] at h
    cases hs : w.sweeps with
    | nil => rw [hs] at h; cases h
    | cons s rest =>
      rw [hs] at h
      simp only at h
      cases ht : s.turn with
      | none => rw [ht] at h; cases h
      | some t =>
        rw [ht] at h
        simp only at h
        cases hf : fetchServerStatus result utcOffset now t.phase with
        | none => rw [hf] at h; cases h
        | some r =>
          rw [hf] at h
          cases r with
          | inl phase =>
            obtain rfl := Option.some.inj h
            obtain ⟨hp, hp', hw⟩ := fetchServerStatus_call hf
            exact .call hs ht hp hp' hw
          | inr report =>
            obtain rfl := Option.some.inj h
            exact .report hs ht (fetchServerStatus_report hf)

theorem dispatch_eq {st : Store} {w w' : Worker} (h : w.dispatch st = some w') :
    w.runsEvents = true ∧ w' =
      { w with sweeps := serverStatusDispatcher w.dispatched st :: w.sweeps, dispatched := w.dispatched + 1 } := by
  simp only [dispatch, Option.ite_none_right_eq_some, Option.some.injEq] at h
  exact ⟨h.1, h.2.symm⟩

theorem mem_top {w : Worker} {s : Sweep} {rest : List Sweep} (hs : w.sweeps = s :: rest) : s ∈ w.sweeps := by
  rw [hs]
  exact List.mem_cons_self

theorem mem_rest {w : Worker} {s x : Sweep} {rest : List Sweep} (hs : w.sweeps = s :: rest) (hx : x ∈ rest) :
    x ∈ w.sweeps := by
  rw [hs]
  exact List.mem_cons_of_mem _ hx

/-! ## The two logs -/

section Logs
variable {st : Store} {w w' : Worker}

theorem moves_started (h : Moves st w w') : w.started <+: w'.started := by
  cases h with
  | probe => exact List.prefix_append _ _
  | beginTurn | nextLoop | done | call | report => exact List.prefix_rfl

theorem moves_emitted (h : Moves st w w') : w.emitted <+: w'.emitted := by
  cases h with
  | report => exact List.prefix_append _ _
  | beginTurn | nextLoop | done | probe | call => exact List.prefix_rfl

/-- Every result, and every probe that runs, is in the log of started probes. -/
structure Recorded (w : Worker) : Prop where
  emitted : ∀ r ∈ w.emitted, w.started[r.probe]? = some ⟨r.sweep, r.server, r.authAddr⟩
  turns : ∀ s ∈ w.sweeps, ∀ t, s.turn = some t → t.phase ≠ .readServerName →
    w.started[t.probe]? = some ⟨s.id, t.serverName, t.serverAuthAddr⟩

theorem recorded_init : Recorded {} where
  emitted := fun _ h => nomatch h
  turns := fun _ h => nomatch h

theorem recorded_dispatch (hr : Recorded w) (h : w.dispatch st = some w') : Recorded w' := by
  obtain ⟨_, rfl⟩ := dispatch_eq h
  refine ⟨hr.emitted, ?_⟩
  intro s hs t ht hp
  rcases List.mem_cons.1 hs with rfl | hs
  · cases ht
  · exact hr.turns s hs t ht hp

theorem recorded_moves (hr : Recorded w) (h : Moves st w w') : Recorded w' := by
  cases h with
  | @beginTurn s rest group groups hs ht hg =>
    refine ⟨hr.emitted, ?_⟩
    intro x hx t hxt hp
    rcases List.mem_cons.1 hx with rfl | hx
    · obtain rfl := Option.some.inj hxt
      exact absurd rfl hp
    · exact hr.turns x (mem_rest hs hx) t hxt hp
  | @nextLoop s rest hs ht hg hl =>
    refine ⟨hr.emitted, ?_⟩
    intro x hx t hxt hp
    rcases List.mem_cons.1 hx with rfl | hx
    · exact hr.turns s (mem_top hs) t hxt hp
    · exact hr.turns x (mem_rest hs hx) t hxt hp
  | @done s rest hs ht hg hl => exact ⟨hr.emitted, fun x hx => hr.turns x (mem_rest hs hx)⟩
  | @probe s rest t hs ht hp =>
    have hgrow : ∀ {i : Nat} {p q : Probe}, w.started[i]? = some p → (w.started ++ [q])[i]? = some p := by
      intro i p q hi
      rw [List.getElem?_append_left (List.getElem?_eq_some_iff.1 hi).1]
      exact hi
    refine ⟨fun r hr' => hgrow (hr.emitted r hr'), ?_⟩
    intro x hx t' hxt hp'
    rcases List.mem_cons.1 hx with rfl | hx
    · obtain rfl := Option.some.inj hxt
      exact List.getElem?_concat_length
    · exact hgrow (hr.turns x (mem_rest hs hx) t' hxt hp')
  | @call s rest t phase hs ht hp hp' _ =>
    refine ⟨hr.emitted, ?_⟩
    intro x hx t' hxt hpt
    rcases List.mem_cons.1 hx with rfl | hx
    · obtain rfl := Option.some.inj hxt
      exact hr.turns s (mem_top hs) t ht hp
    · exact hr.turns x (mem_rest hs hx) t' hxt hpt
  | @report s rest t status uptime hs ht hp =>
    refine ⟨fun r hr' => ?_, fun x hx t' hxt hpt => ?_⟩
    · rcases List.mem_append.1 hr' with hr' | hr'
      · exact hr.emitted r hr'
      · rw [List.mem_singleton.1 hr']
        exact hr.turns s (mem_top hs) t ht hp
    · rcases List.mem_cons.1 hx with rfl | hx
      · cases hxt
      · exact hr.turns x (mem_rest hs hx) t' hxt hpt

end Logs

end Worker

end SegsLauncher
