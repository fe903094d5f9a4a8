import SegsLauncher.ProbeOrder
import SegsLauncher.RpcClient
/-!
# The probes and their RPC clients (Worker.cpp:53)

`World` takes the end of each call of a probe as an event. Here the calls are those of the probe's own
`JsonRpcClient`: objects arrive for any client while the thread runs events, and the wait of the innermost
probe ends with what its client has for it. Leaving out the clients gives a run of `World` (`world_run`).

| here | there |
| --- | --- |
| `RpcWorld.clients`    | the `rpc_client` of each probe; none is deleted before the worker is |
| `RpcEvent.connected`  | `connectToServer` ends (`Worker.cpp:58`) |
| `RpcEvent.returned`   | the wait in `rpc_client->call` ends (`:66`, `:69`) |
| `goOn`                | the call `fetch_server_status` makes next, if any |
| `callResult`          | `isSuccess()` and `result()`, a `QVariant` again |
| `toVariant`           | **Qt boundary**: `QJsonValue::toVariant` |

`received` and `clocks` are not in the source: they record the objects each client received, and the local offset and
the clock at the return of each call of a probe.
-/
namespace SegsLauncher

open KeyTree (latest)

structure RpcWorld where
  world : World
  /-- By the number of the probe. -/
  clients : Nat → JsonRpcClient := fun _ => {}
  received : Nat → List JsonObject := fun _ => []
  clocks : Nat → List (Int × Int) := fun _ => []

inductive RpcEvent where
  | world (e : WorldEvent)
  /-- `id` is that of the `ping` this may lead to. -/
  | connected (ok : Bool) (id : RequestId)
  | received (probe : Nat) (response : JsonObject)
  /-- `id` is that of the `getStartTime` this may lead to. -/
  | returned (timedOut : Bool) (id : RequestId) (utcOffset now : Int)

def callResult (toVariant : Json → QVariant) (r : JsonRpcResult) : Option QVariant :=
  if r.isSuccess then some (toVariant r.result) else none

def goOn (next : Option (Phase ⊕ Bool × String)) (id : RequestId) (client : JsonRpcClient) : Option JsonRpcClient :=
  match next with
  | some (.inl .ping) => client.step (.call id "ping" (.list []))
  | some (.inl .getStartTime) => client.step (.call id "getStartTime" (.list []))
  | _ => some client

/-- The turn of the innermost dispatcher call. -/
def Worker.turn (w : Worker) : Option Turn := w.sweeps.head?.bind Sweep.turn

/-- The end of a call is not an event of its own here. -/
def WorldEvent.isReturns : WorldEvent → Bool
  | .worker (.returns _ _ _) => true
  | _ => false

namespace RpcWorld

/-- The call the probe waits in has ended with `result`. -/
def resume (t : Turn) (result : Option QVariant) (id : RequestId) (utcOffset now : Int) (client : JsonRpcClient)
    (clocks : List (Int × Int)) (w : RpcWorld) : Option RpcWorld :=
  (w.world.step (.worker (.returns result utcOffset now))).bind fun world =>
    (goOn (fetchServerStatus result utcOffset now t.phase) id client).map fun client =>
      { w with
        world := world
        clients := Function.update w.clients t.probe client
        clocks := Function.update w.clocks t.probe clocks }

def step (toVariant : Json → QVariant) (w : RpcWorld) : RpcEvent → Option RpcWorld
  | .world e => if e.isReturns then none else (w.world.step e).map fun world => { w with world := world }
  | .connected ok id =>
    match w.world.worker.turn with
    | none => none
    | some t =>
      if t.phase = .connectToServer then
        w.resume t (if ok then some .invalid else none) id 0 0 (w.clients t.probe) (w.clocks t.probe)
      else none
  | .received probe response =>
    if w.world.worker.runsEvents then
      some { w with
        clients := Function.update w.clients probe ((w.clients probe).jsonResponseReceived response)
        received := Function.update w.received probe (w.received probe ++ [response]) }
    else none
  | .returned timedOut id utcOffset now =>
    match w.world.worker.turn with
    | none => none
    | some t =>
      if t.phase = .ping ∨ t.phase = .getStartTime then
        ((w.clients t.probe).step (.returns timedOut)).bind fun client =>
          client.returned.getLast?.bind fun p =>
            w.resume t (callResult toVariant p.2) id utcOffset now client (w.clocks t.probe ++ [(utcOffset, now)])
      else none

def init (stores : Stores) : RpcWorld := { world := World.init stores }

/-! ## What a step can be -/

/-- The call in which the innermost probe waited has ended, and its client and clocks are `client` and `clocks` then. -/
inductive Ends (toVariant : Json → QVariant) (w : RpcWorld) (t : Turn) (utcOffset now : Int) :
    Option QVariant → JsonRpcClient → List (Int × Int) → Prop
  | connected (ok : Bool) (hp : t.phase = .connectToServer) :
      Ends toVariant w t utcOffset now (if ok then some .invalid else none) (w.clients t.probe) (w.clocks t.probe)
  | returned {timedOut : Bool} {client : JsonRpcClient} {id : RequestId} {r : JsonRpcResult}
      (hp : t.phase = .ping ∨ t.phase = .getStartTime)
      (hc : (w.clients t.probe).step (.returns timedOut) = some client) (hr : client.returned.getLast? = some (id, r)) :
      Ends toVariant w t utcOffset now (callResult toVariant r) client (w.clocks t.probe ++ [(utcOffset, now)])

inductive Moves (toVariant : Json → QVariant) (w : RpcWorld) : RpcWorld → Prop
  | world {e : WorldEvent} {world : World} (he : e.isReturns = false) (h : w.world.step e = some world) :
      Moves toVariant w { w with world := world }
  | received (probe : Nat) (response : JsonObject) :
      Moves toVariant w { w with
        clients := Function.update w.clients probe ((w.clients probe).jsonResponseReceived response)
        received := Function.update w.received probe (w.received probe ++ [response]) }
  | resume {t : Turn} {result : Option QVariant} {client : JsonRpcClient} {clocks : List (Int × Int)} {id : RequestId}
      {utcOffset now : Int} {w' : RpcWorld} (ht : w.world.worker.turn = some t)
      (he : Ends toVariant w t utcOffset now result client clocks)
      (h : w.resume t result id utcOffset now client clocks = some w') : Moves toVariant w w'

variable {toVariant : Json → QVariant} {w w' : RpcWorld}

theorem step_moves {e : RpcEvent} (h : w.step toVariant e = some w') : Moves toVariant w w' := by
  cases e with
  | world e =>
    simp only [step, Option.ite_none_left_eq_some] at h
    obtain ⟨he, h⟩ := h
    obtain ⟨world, hworld, rfl⟩ := Option.map_eq_some_iff.1 h
    exact .world (by simpa using he) hworld
  | connected ok id =>
    simp only [step] at h
    cases ht : w.world.worker.turn with
    | none => simp [ht] at h
    | some t =>
      simp only [ht, Option.ite_none_right_eq_some] at h
      exact .resume ht (.connected ok h.1) h.2
  | received probe response =>
    simp only [step, Option.ite_none_right_eq_some, Option.some.injEq] at h
    obtain ⟨-, rfl⟩ := h
    exact .received probe response
  | returned timedOut id utcOffset now =>
    simp only [step] at h
    cases ht : w.world.worker.turn with
    | none => simp [ht] at h
    | some t =>
      simp only [ht, Option.ite_none_right_eq_some, Option.bind_eq_some_iff] at h
      obtain ⟨hp, client, hc, ⟨i, r⟩, hr, h⟩ := h
      exact .resume ht (.returned hp hc hr) h

/-- Where `fetch_server_status` is after the end of a call. -/
inductive Resumed (w : RpcWorld) (t : Turn) (result : Option QVariant) (utcOffset now : Int) (id : RequestId)
    (client : JsonRpcClient) (clocks : List (Int × Int)) : RpcWorld → Prop
  | call {s : Sweep} {rest : List Sweep} {phase : Phase} {client' : JsonRpcClient}
      (hs : w.world.worker.sweeps = s :: rest) (ht : s.turn = some t)
      (hf : fetchServerStatus result utcOffset now t.phase = some (.inl phase))
      (hc : goOn (some (.inl phase)) id client = some client') :
      Resumed w t result utcOffset now id client clocks { w with
        world := { w.world with worker := { w.world.worker with
          sweeps := { s with turn := some { t with phase := phase } } :: rest } }
        clients := Function.update w.clients t.probe client'
        clocks := Function.update w.clocks t.probe clocks }
  | report {s : Sweep} {rest : List Sweep} {status : Bool} {uptime : String}
      (hs : w.world.worker.sweeps = s :: rest) (ht : s.turn = some t)
      (hf : fetchServerStatus result utcOffset now t.phase = some (.inr (status, uptime))) :
      Resumed w t result utcOffset now id client clocks { w with
        world := { w.world with worker := { w.world.worker with
          sweeps := s.endTurn :: rest
          emitted := w.world.worker.emitted ++ [s.result t status uptime] } }
        clients := Function.update w.clients t.probe client
        clocks := Function.update w.clocks t.probe clocks }

theorem resume_resumed {t : Turn} {result : Option QVariant} {client : JsonRpcClient} {clocks : List (Int × Int)}
    {id : RequestId} {utcOffset now : Int} (ht : w.world.worker.turn = some t)
    (h : w.resume t result id utcOffset now client clocks = some w') :
    Resumed w t result utcOffset now id client clocks w' := by
  simp only [resume, Option.bind_eq_some_iff, Option.map_eq_some_iff, World.step] at h
  obtain ⟨world, ⟨worker, hworker, rfl⟩, client', hc, rfl⟩ := h
  simp only [Worker.step] at hworker
  cases hs : w.world.worker.sweeps with
  | nil => simp [hs] at hworker
  | cons s rest =>
    have hturn : s.turn = some t := by simpa [Worker.turn, hs] using ht
    cases hf : fetchServerStatus result utcOffset now t.phase with
    | none => simp [hs, hturn, hf] at hworker
    | some next =>
      rw [hf] at hc
      cases next with
      | inl phase =>
        simp only [hs, hturn, hf, Option.some.injEq] at hworker
        subst hworker
        exact .call hs hturn hf hc
      | inr report =>
        obtain ⟨status, uptime⟩ := report
        simp only [hs, hturn, hf, Option.some.injEq] at hworker
        subst hworker
        obtain rfl := Option.some.inj hc
        exact .report hs hturn hf

/-! ## The clients left out -/

theorem world_step (h : Moves toVariant w w') : ∃ ws, Runs.run World.step w.world ws = some w'.world := by
  cases h with
  | @world e world he h => exact ⟨[e], by simpa using h⟩
  | received probe response => exact ⟨[], rfl⟩
  | @resume t result client clocks id utcOffset now _ ht he h =>
    simp only [RpcWorld.resume, Option.bind_eq_some_iff, Option.map_eq_some_iff] at h
    obtain ⟨world, hworld, client', -, rfl⟩ := h
    exact ⟨[.worker (.returns result utcOffset now)], by simpa using hworld⟩

/-- **A run with the clients is a run of the world.** -/
theorem world_run {es : List RpcEvent} (h : Runs.run (step toVariant) w es = some w') :
    ∃ ws, Runs.run World.step w.world ws = some w'.world :=
  Runs.run_project (fun hstep => world_step (step_moves hstep)) h

end RpcWorld

/-! ## Each probe has a client of its own -/

namespace Worker

/-- The probes that run, innermost first. -/
def running (w : Worker) : List Nat :=
  w.sweeps.filterMap fun s => s.turn.bind fun t => if t.phase = .readServerName then none else some t.probe

/-- No number belongs to two probes. -/
def Distinct (w : Worker) : Prop := (w.running ++ w.emitted.map Result.probe).Nodup

variable {st : Store} {w w' : Worker}

theorem mem_running {p : Nat} : p ∈ w.running ↔
    ∃ s ∈ w.sweeps, ∃ t, s.turn = some t ∧ t.phase ≠ .readServerName ∧ t.probe = p := by
  simp [running, Option.bind_eq_some_iff]

theorem Recorded.lt_started (hr : Recorded w) {p : Nat} (hp : p ∈ w.running ++ w.emitted.map Result.probe) :
    p < w.started.length := by
  rcases List.mem_append.1 hp with hp | hp
  · obtain ⟨s, hs, t, ht, hphase, rfl⟩ := mem_running.1 hp
    exact (List.getElem?_eq_some_iff.1 (hr.turns s hs t ht hphase)).1
  · obtain ⟨r, hmem, rfl⟩ := List.mem_map.1 hp
    exact (List.getElem?_eq_some_iff.1 (hr.emitted r hmem)).1

/-- The probe of the innermost call is no other running one and has not reported. -/
theorem Distinct.others (hd : Distinct w) {s : Sweep} {rest : List Sweep} {t : Turn} (hs : w.sweeps = s :: rest)
    (ht : s.turn = some t) (hp : t.phase ≠ .readServerName) :
    (∀ x ∈ rest, ∀ t', x.turn = some t' → t'.phase ≠ .readServerName → t'.probe ≠ t.probe) ∧
      ∀ r ∈ w.emitted, r.probe ≠ t.probe := by
  have hold : w.running = t.probe :: running { w with sweeps := rest } := by simp [running, hs, ht, hp]
  rw [Distinct, hold, List.cons_append, List.nodup_cons, List.mem_append, not_or] at hd
  obtain ⟨⟨hrun, hem⟩, -⟩ := hd
  refine ⟨?_, ?_⟩
  · intro x hx t' hxt hp' heq
    exact hrun (mem_running.2 ⟨x, hx, t', hxt, hp', heq⟩)
  · intro r hr heq
    exact hem (List.mem_map.2 ⟨r, hr, heq⟩)

theorem Recorded.ne_of_le (hr : Recorded w) {s : Sweep} {rest : List Sweep} {t : Turn} (hs : w.sweeps = s :: rest)
    (ht : s.turn = some t) (hp : t.phase ≠ .readServerName) {p : Nat} (hle : w.started.length ≤ p) : p ≠ t.probe := by
  rintro rfl
  have hlt := (List.getElem?_eq_some_iff.1 (hr.turns s (mem_top hs) t ht hp)).1
  omega

theorem distinct_dispatch (hd : Distinct w) (h : w.dispatch st = some w') : Distinct w' := by
  obtain ⟨-, rfl⟩ := dispatch_eq h
  exact hd

theorem distinct_moves (hr : Recorded w) (hd : Distinct w) (h : Moves st w w') : Distinct w' := by
  unfold Distinct at hd ⊢
  cases h with
  | @beginTurn s rest group groups hs ht hg =>
    have hold : w.running = running { w with sweeps := rest } := by simp [running, hs, ht]
    rw [hold] at hd
    simpa [running, Sweep.beginTurn] using hd
  | @nextLoop s rest hs ht hg hl =>
    have hold : w.running = running { w with sweeps := rest } := by simp [running, hs, ht]
    rw [hold] at hd
    simpa [running, Sweep.nextLoop, ht] using hd
  | @done s rest hs ht hg hl =>
    have hold : w.running = running { w with sweeps := rest } := by simp [running, hs, ht]
    rw [hold] at hd
    exact hd
  | @probe s rest t hs ht hp =>
    have hold : w.running = running { w with sweeps := rest } := by simp [running, hs, ht, hp]
    have hfresh : w.started.length ∉ w.running ++ w.emitted.map Result.probe := fun hmem =>
      Nat.lt_irrefl _ (hr.lt_started hmem)
    have hcons := List.nodup_cons.2 ⟨hfresh, hd⟩
    rw [hold] at hcons
    simpa [running, Sweep.probe] using hcons
  | @call s rest t phase hs ht hp hp' _ =>
    have hold : w.running = t.probe :: running { w with sweeps := rest } := by simp [running, hs, ht, hp]
    rw [hold] at hd
    simpa [running, hp'] using hd
  | @report s rest t status uptime hs ht hp =>
    have hold : w.running = t.probe :: running { w with sweeps := rest } := by simp [running, hs, ht, hp]
    rw [hold] at hd
    -- the probe only moves from the running ones to the results
    have hperm : (running { w with sweeps := rest } ++ (w.emitted ++ [s.result t status uptime]).map Result.probe).Perm
        (t.probe :: running { w with sweeps := rest } ++ w.emitted.map Result.probe) := by
      rw [List.map_append, ← List.append_assoc]
      exact List.perm_append_singleton _ _
    simpa [running, Sweep.endTurn] using hperm.nodup_iff.2 hd

end Worker

/-! ## What a client's books say about its probe -/

/-- What the client of a probe has sent and got back while the probe waits, with the clock at each return. -/
inductive Stage (client : JsonRpcClient) (clocks : List (Int × Int)) : Phase → Prop
  | connectToServer (hw : client.waiting = []) (hs : client.sent = []) (hr : client.returned = []) (hc : clocks = []) :
      Stage client clocks .connectToServer
  | ping {id : RequestId} (hw : client.waiting = [id]) (hs : client.sent = [createRequestJsonObject "ping" id])
      (hr : client.returned = []) (hc : clocks = []) : Stage client clocks .ping
  | getStartTime {id₁ id₂ : RequestId} {v₁ : Json} {clock : Int × Int} (hw : client.waiting = [id₂])
      (hs : client.sent = [createRequestJsonObject "ping" id₁, createRequestJsonObject "getStartTime" id₂])
      (hr : client.returned = [(id₁, .success v₁)]) (hc : clocks = [clock]) : Stage client clocks .getStartTime

/-- The client's two calls returned successes, and the days are counted from the second by the clock at its return. -/
def BothReturned (toVariant : Json → QVariant) (client : JsonRpcClient) (clocks : List (Int × Int))
    (uptime : String) : Prop :=
  ∃ id₁ v₁ id₂ v₂ clock utcOffset now,
    client.sent = [createRequestJsonObject "ping" id₁, createRequestJsonObject "getStartTime" id₂] ∧
    client.returned = [(id₁, .success v₁), (id₂, .success v₂)] ∧ clocks = [clock, (utcOffset, now)] ∧
    uptime = uptimeDays (toVariant v₂) utcOffset now

/-- A probe reports a server online exactly when both of its calls returned successes. -/
structure Outcome (toVariant : Json → QVariant) (client : JsonRpcClient) (clocks : List (Int × Int)) (status : Bool)
    (uptime : String) : Prop where
  online : status = true → BothReturned toVariant client clocks uptime
  offline : status = false → ∀ u, ¬ BothReturned toVariant client clocks u

theorem Stage.congr {phase : Phase} {client client' : JsonRpcClient} {clocks : List (Int × Int)}
    (h : Stage client clocks phase) (hw : client'.waiting = client.waiting) (hs : client'.sent = client.sent)
    (hr : client'.returned = client.returned) : Stage client' clocks phase := by
  cases h with
  | connectToServer h₁ h₂ h₃ hc => exact .connectToServer (hw.trans h₁) (hs.trans h₂) (hr.trans h₃) hc
  | ping h₁ h₂ h₃ hc => exact .ping (hw.trans h₁) (hs.trans h₂) (hr.trans h₃) hc
  | getStartTime h₁ h₂ h₃ hc => exact .getStartTime (hw.trans h₁) (hs.trans h₂) (hr.trans h₃) hc

theorem Outcome.congr {toVariant : Json → QVariant} {client client' : JsonRpcClient} {clocks : List (Int × Int)}
    {status : Bool} {uptime : String} (h : Outcome toVariant client clocks status uptime)
    (hs : client'.sent = client.sent) (hr : client'.returned = client.returned) :
    Outcome toVariant client' clocks status uptime := by
  have hboth : ∀ u, BothReturned toVariant client' clocks u ↔ BothReturned toVariant client clocks u := by
    intro u
    simp only [BothReturned, hs, hr]
  exact ⟨fun ht => (hboth uptime).2 (h.online ht), fun hf u hu => h.offline hf u ((hboth u).1 hu)⟩

theorem not_bothReturned {toVariant : Json → QVariant} {client : JsonRpcClient} {clocks : List (Int × Int)}
    {uptime : String} (h : client.returned.length ≠ 2 ∨ ∃ p ∈ client.returned, p.2.isSuccess = false) :
    ¬ BothReturned toVariant client clocks uptime := by
  rintro ⟨id₁, v₁, id₂, v₂, clock, utcOffset, now, -, hr, -, -⟩
  rcases h with h | ⟨p, hp, hfail⟩
  · exact h (by rw [hr]; rfl)
  · rw [hr] at hp
    rcases List.mem_pair.1 hp with rfl | rfl
    · cases hfail
    · cases hfail

namespace JsonRpcClient

variable {c c' : JsonRpcClient} {id : RequestId}

theorem returns_one {timedOut : Bool} (hw : c.waiting = [id]) (h : c.step (.returns timedOut) = some c') :
    c'.waiting = [] ∧ c'.sent = c.sent ∧ ∃ r, c'.returned = c.returned ++ [(id, r)] := by
  obtain ⟨i, waiting, hw', -, rfl⟩ := returns_spec h
  rw [hw, List.cons.injEq] at hw'
  obtain ⟨rfl, rfl⟩ := hw'
  exact ⟨rfl, rfl, _, rfl⟩

theorem call_one {method : String} (h : c.step (.call id method (.list [])) = some c') :
    c'.waiting = id :: c.waiting ∧ c'.sent = c.sent ++ [createRequestJsonObject method id] ∧
      c'.returned = c.returned := by
  simp only [step, Option.ite_none_right_eq_some, Option.some.injEq] at h
  obtain ⟨-, rfl⟩ := h
  exact ⟨rfl, rfl, rfl⟩

end JsonRpcClient

namespace RpcWorld

variable {toVariant : Json → QVariant} {w w' : RpcWorld} {t : Turn} {result : Option QVariant}
  {client client' : JsonRpcClient} {clocks : List (Int × Int)} {utcOffset now : Int}

/-- After a success the next call begins. -/
theorem Ends.call (he : Ends toVariant w t utcOffset now result client clocks)
    (hs : Stage (w.clients t.probe) (w.clocks t.probe) t.phase) {phase : Phase} {id : RequestId}
    (hf : fetchServerStatus result utcOffset now t.phase = some (.inl phase))
    (hc : goOn (some (.inl phase)) id client = some client') : Stage client' clocks phase := by
  cases he with
  | connected ok hp =>
    rw [hp] at hs hf
    cases hs with
    | connectToServer hw hsent hr hclocks =>
      cases ok with
      | false => cases hf
      | true =>
        obtain rfl := Sum.inl.inj (Option.some.inj hf)
        obtain ⟨hw', hsent', hr'⟩ := JsonRpcClient.call_one hc
        exact .ping (by rw [hw', hw]) (by rw [hsent', hsent]; rfl) (by rw [hr', hr]) hclocks
  | @returned timedOut _ i r hp hc₀ hr₀ =>
    rcases hp with hp | hp
    · rw [hp] at hs hf
      cases hs with
      | ping hw hsent hr hclocks =>
        obtain ⟨hw₁, hsent₁, r', hr₁⟩ := JsonRpcClient.returns_one hw hc₀
        rw [hr₁, List.getLast?_concat, Option.some.injEq, Prod.mk.injEq] at hr₀
        obtain ⟨rfl, rfl⟩ := hr₀
        cases r' with
        | error code message data => cases hf
        | success v =>
          obtain rfl := Sum.inl.inj (Option.some.inj hf)
          obtain ⟨hw', hsent', hr'⟩ := JsonRpcClient.call_one hc
          exact .getStartTime (by rw [hw', hw₁]) (by rw [hsent', hsent₁, hsent]; rfl) (by rw [hr', hr₁, hr]; rfl)
            (by rw [hclocks]; rfl)
    · rw [hp] at hf
      cases hres : callResult toVariant r with
      | none => rw [hres] at hf; cases hf
      | some v => rw [hres] at hf; cases hf

/-- What a probe reports is what its client got back. -/
theorem Ends.report (he : Ends toVariant w t utcOffset now result client clocks)
    (hs : Stage (w.clients t.probe) (w.clocks t.probe) t.phase) {status : Bool} {uptime : String}
    (hf : fetchServerStatus result utcOffset now t.phase = some (.inr (status, uptime))) :
    Outcome toVariant client clocks status uptime := by
  cases he with
  | connected ok hp =>
    rw [hp] at hs hf
    cases hs with
    | connectToServer hw hsent hr hclocks =>
      cases ok with
      | true => cases hf
      | false =>
        obtain ⟨rfl, rfl⟩ := Prod.mk.inj (Sum.inr.inj (Option.some.inj hf))
        refine ⟨fun h => (nomatch h), fun _ u => not_bothReturned (.inl ?_)⟩
        rw [hr]
        decide
  | @returned timedOut _ i r hp hc₀ hr₀ =>
    rcases hp with hp | hp
    · rw [hp] at hs hf
      cases hs with
      | ping hw hsent hr hclocks =>
        obtain ⟨-, -, r', hr₁⟩ := JsonRpcClient.returns_one hw hc₀
        cases hres : callResult toVariant r with
        | some v => rw [hres] at hf; cases hf
        | none =>
          rw [hres] at hf
          obtain ⟨rfl, rfl⟩ := Prod.mk.inj (Sum.inr.inj (Option.some.inj hf))
          refine ⟨fun h => (nomatch h), fun _ u => not_bothReturned (.inl ?_)⟩
          simp [hr₁, hr]
    · rw [hp] at hs hf
      cases hs with
      | @getStartTime id₁ id₂ v₁ clock hw hsent hr hclocks =>
        obtain ⟨-, hsent₁, r', hr₁⟩ := JsonRpcClient.returns_one hw hc₀
        rw [hr₁, List.getLast?_concat, Option.some.injEq, Prod.mk.injEq] at hr₀
        obtain ⟨rfl, rfl⟩ := hr₀
        cases r' with
        | success v =>
          obtain ⟨rfl, rfl⟩ := Prod.mk.inj (Sum.inr.inj (Option.some.inj hf))
          refine ⟨fun _ => ?_, fun h => (nomatch h)⟩
          refine ⟨id₁, v₁, id₂, v, clock, utcOffset, now, hsent₁.trans hsent, ?_, ?_, rfl⟩
          · rw [hr₁, hr]
            rfl
          · rw [hclocks]
            rfl
        | error code message data =>
          obtain ⟨rfl, rfl⟩ := Prod.mk.inj (Sum.inr.inj (Option.some.inj hf))
          refine ⟨fun h => (nomatch h), fun _ u => not_bothReturned (.inr ?_)⟩
          exact ⟨_, by rw [hr₁]; exact List.mem_append_right _ (List.mem_singleton_self _), rfl⟩

/-! ## Runs -/

/-- Every running probe waits in the call its client is in, and every result is what its client got back. -/
structure RpcInv (toVariant : Json → QVariant) (w : RpcWorld) : Prop where
  recorded : w.world.worker.Recorded
  distinct : w.world.worker.Distinct
  idle : ∀ p, w.world.worker.started.length ≤ p → Stage (w.clients p) (w.clocks p) .connectToServer
  stages : ∀ s ∈ w.world.worker.sweeps, ∀ t, s.turn = some t → t.phase ≠ .readServerName →
    Stage (w.clients t.probe) (w.clocks t.probe) t.phase
  outcomes : ∀ r ∈ w.world.worker.emitted,
    Outcome toVariant (w.clients r.probe) (w.clocks r.probe) r.status r.uptime
  records : ∀ p, (w.clients p).SentInv
  signals : ∀ p, ∀ q ∈ (w.clients p).signals, ∃ o ∈ w.received p, answerOf o = some q

theorem rpcInv_init (stores : Stores) : RpcInv toVariant (init stores) where
  recorded := Worker.recorded_init
  distinct := List.nodup_nil
  idle := fun _ _ => .connectToServer rfl rfl rfl rfl
  stages := fun _ h => nomatch h
  outcomes := fun _ h => nomatch h
  records := fun _ => JsonRpcClient.sentInv_init
  signals := fun _ _ h => nomatch h

theorem worker_step {w w' : World} {e : WorldEvent} (h : w.step e = some w') (hr : w.worker.Recorded)
    (hd : w.worker.Distinct) : w'.worker.Recorded ∧ w'.worker.Distinct := by
  cases e with
  | window e =>
    obtain ⟨_, app, _, rfl⟩ := step_window h
    exact ⟨hr, hd⟩
  | dispatch =>
    obtain ⟨worker, hw, rfl⟩ := step_dispatch h
    exact ⟨Worker.recorded_dispatch hr hw, Worker.distinct_dispatch hd hw⟩
  | worker e =>
    obtain ⟨worker, hw, rfl⟩ := step_worker h
    exact ⟨Worker.recorded_moves hr hw, Worker.distinct_moves hr hd hw⟩
  | deliver =>
    obtain ⟨r, _, rfl⟩ := step_deliver h
    exact ⟨hr, hd⟩

/-- The world goes on between two calls. -/
theorem rpcInv_world {e : WorldEvent} {world : World} (he : e.isReturns = false) (h : w.world.step e = some world)
    (hi : RpcInv toVariant w) : RpcInv toVariant { w with world := world } := by
  obtain ⟨hrec, hdis⟩ := worker_step h hi.recorded hi.distinct
  cases e with
  | window e =>
    obtain ⟨_, app, _, rfl⟩ := step_window h
    exact ⟨hrec, hdis, hi.idle, hi.stages, hi.outcomes, hi.records, hi.signals⟩
  | dispatch =>
    obtain ⟨worker, hw, rfl⟩ := step_dispatch h
    obtain ⟨-, rfl⟩ := Worker.dispatch_eq hw
    refine ⟨hrec, hdis, hi.idle, ?_, hi.outcomes, hi.records, hi.signals⟩
    intro s hs t ht hp
    rcases List.mem_cons.1 hs with rfl | hs
    · cases ht
    · exact hi.stages s hs t ht hp
  | deliver =>
    obtain ⟨r, _, rfl⟩ := step_deliver h
    exact ⟨hrec, hdis, hi.idle, hi.stages, hi.outcomes, hi.records, hi.signals⟩
  | worker e =>
    cases e with
    | returns result utcOffset now => cases he
    | advance =>
      obtain ⟨worker, hw, rfl⟩ := Option.map_eq_some_iff.1 h
      cases Worker.step_moves hw with
      | @beginTurn s rest group groups hs ht hg =>
        refine ⟨hrec, hdis, hi.idle, ?_, hi.outcomes, hi.records, hi.signals⟩
        intro x hx t hxt hp
        rcases List.mem_cons.1 hx with rfl | hx
        · obtain rfl := Option.some.inj hxt
          exact absurd rfl hp
        · exact hi.stages x (Worker.mem_rest hs hx) t hxt hp
      | @nextLoop s rest hs ht hg hl =>
        refine ⟨hrec, hdis, hi.idle, ?_, hi.outcomes, hi.records, hi.signals⟩
        intro x hx t hxt hp
        rcases List.mem_cons.1 hx with rfl | hx
        · exact hi.stages s (Worker.mem_top hs) t hxt hp
        · exact hi.stages x (Worker.mem_rest hs hx) t hxt hp
      | @done s rest hs ht hg hl =>
        exact ⟨hrec, hdis, hi.idle, fun x hx => hi.stages x (Worker.mem_rest hs hx), hi.outcomes, hi.records,
          hi.signals⟩
      | @probe s rest t hs ht hp =>
        refine ⟨hrec, hdis, ?_, ?_, hi.outcomes, hi.records, hi.signals⟩
        · intro p hle
          simp only [List.length_append, List.length_singleton] at hle
          exact hi.idle p (by omega)
        · intro x hx t' hxt hp'
          rcases List.mem_cons.1 hx with rfl | hx
          · obtain rfl := Option.some.inj hxt
            exact hi.idle _ (Nat.le_refl _)
          · exact hi.stages x (Worker.mem_rest hs hx) t' hxt hp'
      | @call s rest t phase hs ht hp hp' _ => simp [Worker.step, hs, ht, hp] at hw
      | @report s rest t status uptime hs ht hp => simp [Worker.step, hs, ht, hp] at hw

/-- An object arrives for a client. -/
theorem rpcInv_received (probe : Nat) (response : JsonObject) (hi : RpcInv toVariant w) :
    RpcInv toVariant { w with
      clients := Function.update w.clients probe ((w.clients probe).jsonResponseReceived response)
      received := Function.update w.received probe (w.received probe ++ [response]) } := by
  have hears := JsonRpcClient.Hears.one response (w.clients probe)
  have hkeep : ∀ p, (Function.update w.clients probe ((w.clients probe).jsonResponseReceived response) p).waiting =
        (w.clients p).waiting ∧
      (Function.update w.clients probe ((w.clients probe).jsonResponseReceived response) p).sent = (w.clients p).sent ∧
      (Function.update w.clients probe ((w.clients probe).jsonResponseReceived response) p).returned =
        (w.clients p).returned := by
    intro p
    by_cases hp : p = probe
    · subst hp
      simp only [Function.update_self]
      exact ⟨hears.waiting, hears.sent, hears.returned⟩
    · simp [Function.update_of_ne hp]
  refine ⟨hi.recorded, hi.distinct, ?_, ?_, ?_, ?_, ?_⟩
  · intro p hp
    obtain ⟨hw, hs, hr⟩ := hkeep p
    exact (hi.idle p hp).congr hw hs hr
  · intro s hs t ht hp
    obtain ⟨hw, hs', hr⟩ := hkeep t.probe
    exact (hi.stages s hs t ht hp).congr hw hs' hr
  · intro r hr
    obtain ⟨-, hs, hr'⟩ := hkeep r.probe
    exact (hi.outcomes r hr).congr hs hr'
  · have hstep : (w.clients probe).step (.received response) = some ((w.clients probe).jsonResponseReceived response) :=
      rfl
    exact (Function.forall_update_iff w.clients fun _ c => c.SentInv).2
      ⟨JsonRpcClient.sentInv_step hstep (hi.records probe), fun p _ => hi.records p⟩
  · intro p q hq
    by_cases hp : p = probe
    · subst hp
      simp only [Function.update_self] at hq ⊢
      rcases hears.signals q hq with hq | ⟨o, ho, ha⟩
      · obtain ⟨o, ho, ha⟩ := hi.signals p q hq
        exact ⟨o, List.mem_append_left _ ho, ha⟩
      · exact ⟨o, List.mem_append_right _ ho, ha⟩
    · simp only [Function.update_of_ne hp] at hq ⊢
      exact hi.signals p q hq

/-- What the end of a call and the next one leave as it is. -/
theorem Ends.keeps (he : Ends toVariant w t utcOffset now result client clocks) (hs : (w.clients t.probe).SentInv) :
    client.SentInv ∧ client.signals = (w.clients t.probe).signals := by
  cases he with
  | connected ok hp => exact ⟨hs, rfl⟩
  | returned hp hc hr =>
    exact ⟨JsonRpcClient.sentInv_step hc hs, (JsonRpcClient.local_step hc fun _ h => (nomatch h)).2.1⟩

theorem Ends.phase_ne (he : Ends toVariant w t utcOffset now result client clocks) : t.phase ≠ .readServerName := by
  cases he with
  | connected ok hp => simp [hp]
  | returned hp hc hr => rcases hp with hp | hp <;> simp [hp]

theorem goOn_keeps {next : Option (Phase ⊕ Bool × String)} {id : RequestId} (hc : goOn next id client = some client')
    (hs : client.SentInv) : client'.SentInv ∧ client'.signals = client.signals := by
  have hcall : ∀ {method : String}, client.step (.call id method (.list [])) = some client' →
      client'.SentInv ∧ client'.signals = client.signals := fun h =>
    ⟨JsonRpcClient.sentInv_step h hs, (JsonRpcClient.local_step h fun _ h => (nomatch h)).2.1⟩
  match next with
  | some (.inl .ping) => exact hcall hc
  | some (.inl .getStartTime) => exact hcall hc
  | some (.inl .readServerName) | some (.inl .connectToServer) | some (.inr report) | none =>
    obtain rfl := Option.some.inj hc
    exact ⟨hs, rfl⟩

/-- The innermost probe goes on. -/
theorem rpcInv_resume {id : RequestId} (ht : w.world.worker.turn = some t)
    (he : Ends toVariant w t utcOffset now result client clocks)
    (h : w.resume t result id utcOffset now client clocks = some w') (hi : RpcInv toVariant w) :
    RpcInv toVariant w' := by
  have hworker : w'.world.worker.Recorded ∧ w'.world.worker.Distinct := by
    simp only [resume, Option.bind_eq_some_iff, Option.map_eq_some_iff] at h
    obtain ⟨world, hworld, client', -, rfl⟩ := h
    exact worker_step hworld hi.recorded hi.distinct
  obtain ⟨hsent, hsignals⟩ := he.keeps (hi.records t.probe)
  have hphase := he.phase_ne
  cases resume_resumed ht h with
  | @call s rest phase client' hs hturn hf hc =>
    obtain ⟨hrun, hem⟩ := hi.distinct.others hs hturn hphase
    obtain ⟨hsent', hsignals'⟩ := goOn_keeps hc hsent
    refine ⟨hworker.1, hworker.2, ?_, ?_, ?_, ?_, ?_⟩
    · intro p hle
      simp only [Function.update_of_ne (hi.recorded.ne_of_le hs hturn hphase hle)]
      exact hi.idle p hle
    · intro x hx t' hxt hp
      rcases List.mem_cons.1 hx with rfl | hx
      · obtain rfl := Option.some.inj hxt
        simp only [Function.update_self]
        exact he.call (hi.stages s (Worker.mem_top hs) t hturn hphase) hf hc
      · simp only [Function.update_of_ne (hrun x hx t' hxt hp)]
        exact hi.stages x (Worker.mem_rest hs hx) t' hxt hp
    · intro r hr
      simp only [Function.update_of_ne (hem r hr)]
      exact hi.outcomes r hr
    · exact (Function.forall_update_iff w.clients fun _ c => c.SentInv).2 ⟨hsent', fun p _ => hi.records p⟩
    · refine (Function.forall_update_iff w.clients fun p c => ∀ q ∈ c.signals, ∃ o ∈ w.received p, answerOf o = some q).2
        ⟨?_, fun p _ => hi.signals p⟩
      rw [hsignals', hsignals]
      exact hi.signals t.probe
  | @report s rest status uptime hs hturn hf =>
    obtain ⟨hrun, hem⟩ := hi.distinct.others hs hturn hphase
    refine ⟨hworker.1, hworker.2, ?_, ?_, ?_, ?_, ?_⟩
    · intro p hle
      simp only [Function.update_of_ne (hi.recorded.ne_of_le hs hturn hphase hle)]
      exact hi.idle p hle
    · intro x hx t' hxt hp
      rcases List.mem_cons.1 hx with rfl | hx
      · cases hxt
      · simp only [Function.update_of_ne (hrun x hx t' hxt hp)]
        exact hi.stages x (Worker.mem_rest hs hx) t' hxt hp
    · intro r hr
      rcases List.mem_append.1 hr with hr | hr
      · simp only [Function.update_of_ne (hem r hr)]
        exact hi.outcomes r hr
      · obtain rfl := List.mem_singleton.1 hr
        simp only [Sweep.result, Function.update_self]
        exact he.report (hi.stages s (Worker.mem_top hs) t hturn hphase) hf
    · exact (Function.forall_update_iff w.clients fun _ c => c.SentInv).2 ⟨hsent, fun p _ => hi.records p⟩
    · refine (Function.forall_update_iff w.clients fun p c => ∀ q ∈ c.signals, ∃ o ∈ w.received p, answerOf o = some q).2
        ⟨?_, fun p _ => hi.signals p⟩
      rw [hsignals]
      exact hi.signals t.probe

theorem rpcInv_step {e : RpcEvent} (h : w.step toVariant e = some w') (hi : RpcInv toVariant w) :
    RpcInv toVariant w' := by
  cases step_moves h with
  | world he hworld => exact rpcInv_world he hworld hi
  | received probe response => exact rpcInv_received probe response hi
  | resume ht he hresume => exact rpcInv_resume ht he hresume hi

/-- The probe's client received a success for its `ping` and one for its `getStartTime`, its calls returned these, and
the days are counted from the second by the clock at its return. -/
def Answered (toVariant : Json → QVariant) (w : RpcWorld) (probe : Nat) (uptime : String) : Prop :=
  ∃ id₁ v₁ id₂ v₂ clock utcOffset now, ∃ o₁ ∈ w.received probe, ∃ o₂ ∈ w.received probe,
    answerOf o₁ = some (id₁, .success v₁) ∧ answerOf o₂ = some (id₂, .success v₂) ∧
    (w.clients probe).sent = [createRequestJsonObject "ping" id₁, createRequestJsonObject "getStartTime" id₂] ∧
    (w.clients probe).returned = [(id₁, .success v₁), (id₂, .success v₂)] ∧
    w.clocks probe = [clock, (utcOffset, now)] ∧ uptime = uptimeDays (toVariant v₂) utcOffset now

theorem RpcInv.answered (hi : RpcInv toVariant w) {probe : Nat} {uptime : String}
    (h : BothReturned toVariant (w.clients probe) (w.clocks probe) uptime) : Answered toVariant w probe uptime := by
  obtain ⟨id₁, v₁, id₂, v₂, clock, utcOffset, now, hsent, hret, hclocks, huptime⟩ := h
  -- a success is no time-out, so the client was signalled it
  have hreceived : ∀ id v, (id, JsonRpcResult.success v) ∈ (w.clients probe).returned →
      ∃ o ∈ w.received probe, answerOf o = some (id, .success v) := by
    intro id v hmem
    rcases (hi.records probe).returned _ hmem with ht | hsig
    · cases ht
    · exact hi.signals probe _ hsig
  obtain ⟨o₁, ho₁, ha₁⟩ := hreceived id₁ v₁ (by simp [hret])
  obtain ⟨o₂, ho₂, ha₂⟩ := hreceived id₂ v₂ (by simp [hret])
  exact ⟨id₁, v₁, id₂, v₂, clock, utcOffset, now, o₁, ho₁, o₂, ho₂, ha₁, ha₂, hsent, hret, hclocks, huptime⟩

/-- A row that shows a status shows the latest result handled for its name. -/
theorem latest_of_showsInv {w : World} (hi : ShowsInv w) {row : Row} (hrow : row ∈ w.app.serverListModel)
    (hstatus : row.serverStatus ≠ none) :
    ∃ r ∈ w.worker.emitted, KeyTree.latest row.serverName w.handledLog = some r ∧ row.serverStatus = some r.status ∧
      (r.status = true → row.serverUptime = some r.uptime) := by
  obtain ⟨r, hlatest, hcarries, huptime⟩ := hi.rows.latest row hrow hstatus
  obtain ⟨p, hp, hpr⟩ := List.mem_map.1 (KeyTree.mem_of_latest hlatest)
  obtain rfl := (Prod.mk.inj hpr).2
  exact ⟨p, List.take_subset _ _ hp, hlatest, hcarries, huptime⟩

/-- The values that the two methods of a server return. -/
def plainVariant : Json → QVariant
  | .string s => .string s
  | .double n 0 => .int n
  | _ => .invalid

/-- Two servers, one dispatcher call. The first one answers in time, nine days after it was started; the second one does
not answer, and a late answer of the first arrives while its probe waits. -/
def twoProbes : Option RpcWorld :=
  Runs.run (step plainVariant) (init ⟨∅, ∅⟩)
    [.world (.window .fetchServerList), .world (.window (.serversReply none)),
      .world (.window (.addToServerList "Main" "10.0.0.1")), .world (.window (.addToServerList "Side" "10.0.0.2")),
      .world .dispatch, .world (.worker .advance), .world (.worker .advance), .world (.worker .advance),
      .connected true "a", .received 0 JsonRpcClient.pong, .returned false "b" 3600 863999,
      .received 0 [("jsonrpc", .string "2.0"), ("id", .string "b"), ("result", .double 86400 0)],
      .returned false "" 3600 864000, .world (.worker .advance), .world (.worker .advance), .connected true "c",
      .received 0 JsonRpcClient.pong, .returned true "" 3600 864060, .world (.worker .advance), .world .deliver,
      .world .deliver]

end RpcWorld

end SegsLauncher
