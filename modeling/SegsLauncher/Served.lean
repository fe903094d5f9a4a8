import SegsLauncher.Probes
import SegsLauncher.RpcSystem
/-!
# The launcher and one of its servers

`RpcWorld` lets any object arrive for a probe, `System` lets any client call. Here the two are put together at
one address: the client of a probe of that address is the client of a connection to the server there, and what
arrives for it is what the server sent. Other probes, other clients of the server and the server's own
notifications go on as they like. Leaving out either side gives a run of the other (`launcher_run`,
`server_run`).

| here | there |
| --- | --- |
| `Stack.server`         | the RPC server at `authAddr`, port 6001 (`Worker.cpp:58`), if it is one of this library; `.inl` are its connections to probes, by number |
| `StackEvent.connected` | `connectToServer` ends; the `ping` it may lead to goes on the wire |
| `StackEvent.returned`  | the wait in `rpc_client->call` ends; the `getStartTime` it may lead to goes on the wire |
| `StackEvent.toProbe`   | the socket of a probe's client reads, in the wait of this probe or of another |
-/
namespace SegsLauncher

open KeyTree (latest)

structure Stack (κ σ : Type) (toJson : JsonObject → QByteArray) where
  launcher : RpcWorld
  server : System (Nat ⊕ κ) σ toJson

inductive StackEvent (κ : Type) where
  /-- Something of the launcher that is not about this server. -/
  | launcher (e : RpcEvent)
  | connected (ok : Bool) (id : RequestId)
  | returned (timedOut : Bool) (id : RequestId) (utcOffset now : Int)
  | toProbe (probe n : Nat)
  /-- Something of the server or of its other clients. -/
  | server (e : System.Event (Nat ⊕ κ))

/-- The event is about a probe of another address, or about none. -/
def RpcWorld.elsewhere (authAddr : String) (w : RpcWorld) : RpcEvent → Bool
  | .world _ => true
  | .connected _ _ | .returned _ _ _ _ => w.world.worker.turn.any fun t => t.serverAuthAddr ≠ authAddr
  | .received probe _ => w.world.worker.started[probe]?.any fun p => p.authAddr ≠ authAddr

def System.Event.ofServer {κ : Type} : System.Event (Nat ⊕ κ) → Bool
  | .connect (.inl _) | .client (.inl _) _ | .toClient (.inl _) _ => false
  | _ => true

namespace Stack

variable {κ σ : Type} [DecidableEq κ] {toJson : JsonObject → QByteArray} (authAddr : String)
  (toVariant : Json → QVariant) (fromJson : QByteArray → Document) (convert : String → Json → Option Json)
  (numberText : Int → Nat → String) (srv : JsonRpcServer σ)

/-- The call in which the innermost probe waits now goes on the wire. -/
def beginCall (id : RequestId) (launcher : RpcWorld) (server : System (Nat ⊕ κ) σ toJson) :
    Option (System (Nat ⊕ κ) σ toJson) :=
  match launcher.world.worker.turn with
  | none => some server
  | some t =>
    match t.phase with
    | .ping => server.step fromJson convert numberText srv (.client (.inl t.probe) (.call id "ping" (.list [])))
    | .getStartTime =>
      server.step fromJson convert numberText srv (.client (.inl t.probe) (.call id "getStartTime" (.list [])))
    | .readServerName | .connectToServer => some server

def step (s : Stack κ σ toJson) : StackEvent κ → Option (Stack κ σ toJson)
  | .launcher e =>
    if s.launcher.elsewhere authAddr e then
      (s.launcher.step toVariant e).map fun launcher => { s with launcher := launcher }
    else none
  | .connected ok id =>
    match s.launcher.world.worker.turn with
    | none => none
    | some t =>
      if t.serverAuthAddr = authAddr then
        (s.launcher.step toVariant (.connected ok id)).bind fun launcher =>
          (if ok then s.server.step fromJson convert numberText srv (.connect (.inl t.probe)) else some s.server).bind
            fun server => (beginCall fromJson convert numberText srv id launcher server).map fun server =>
              ⟨launcher, server⟩
      else none
  | .returned timedOut id utcOffset now =>
    match s.launcher.world.worker.turn with
    | none => none
    | some t =>
      if t.serverAuthAddr = authAddr then
        (s.launcher.step toVariant (.returned timedOut id utcOffset now)).bind fun launcher =>
          (s.server.step fromJson convert numberText srv (.client (.inl t.probe) (.returns timedOut))).bind
            fun server => (beginCall fromJson convert numberText srv id launcher server).map fun server =>
              ⟨launcher, server⟩
      else none
  | .toProbe probe n =>
    if s.launcher.world.worker.runsEvents ∧
        s.launcher.world.worker.started[probe]?.any (fun p => p.authAddr = authAddr) then
      ((s.server.connections (.inl probe)).down.deliver fromJson n).bind fun d =>
        (Runs.run (RpcWorld.step toVariant) s.launcher (d.1.map (.received probe))).bind fun launcher =>
          (s.server.step fromJson convert numberText srv (.toClient (.inl probe) n)).map fun server =>
            ⟨launcher, server⟩
    else none
  | .server e =>
    if e.ofServer then (s.server.step fromJson convert numberText srv e).map fun server => { s with server := server }
    else none

def init (stores : Stores) (s₀ : σ) : Stack κ σ toJson := ⟨RpcWorld.init stores, System.init s₀⟩

end Stack

/-! ## What a step of the server does to the clients -/

namespace System

variable {κ σ : Type} [DecidableEq κ] {toJson : JsonObject → QByteArray} {fromJson : QByteArray → Document}
  {convert : String → Json → Option Json} {numberText : Int → Nat → String} {srv : JsonRpcServer σ}
  {sys sys' : System κ σ toJson}

/-- The client of each connection. -/
def clients (sys : System κ σ toJson) (k : κ) : JsonRpcClient := (sys.connections k).client

theorem clients_set (k : κ) (c : Connection toJson) (sys : System κ σ toJson) :
    (sys.set k c).clients = Function.update sys.clients k c.client := by
  funext j
  by_cases hj : j = k
  · subst hj
    simp [clients, System.set]
  · simp [clients, System.set, hj]

theorem clients_connect {k : κ} (h : step fromJson convert numberText srv sys (.connect k) = some sys') :
    sys'.clients = sys.clients := by
  simp only [step, Option.ite_none_right_eq_some, Option.some.injEq] at h
  obtain ⟨-, rfl⟩ := h
  rw [clients_set]
  exact Function.update_eq_self k sys.clients

theorem clients_client {k : κ} {e : JsonRpcClient.Event}
    (h : step fromJson convert numberText srv sys (.client k e) = some sys') :
    ∃ client, (sys.clients k).step e = some client ∧ sys'.clients = Function.update sys.clients k client := by
  simp only [step, Option.ite_none_left_eq_some] at h
  obtain ⟨c, hc, rfl⟩ := Option.map_eq_some_iff.1 h.2
  exact ⟨c.client, (Connection.act_spec hc).2.1, clients_set k c sys⟩

theorem clients_toClient {k : κ} {n : Nat} {os : List JsonObject} {w : Wire toJson}
    (hd : (sys.connections k).down.deliver fromJson n = some (os, w))
    (h : step fromJson convert numberText srv sys (.toClient k n) = some sys') :
    sys'.clients = Function.update sys.clients k ((sys.clients k).receiveObjects os) := by
  simp only [step, Connection.hear, hd, Option.map_some, Option.some.injEq] at h
  subst h
  exact clients_set k _ sys

/-- An event of the server or of other clients changes no client of a probe. -/
theorem clients_ofServer {κ : Type} [DecidableEq κ] {sys sys' : System (Nat ⊕ κ) σ toJson}
    {e : System.Event (Nat ⊕ κ)} (he : e.ofServer = true) (h : step fromJson convert numberText srv sys e = some sys')
    (p : Nat) : sys'.clients (.inl p) = sys.clients (.inl p) := by
  have hset : ∀ {k : Nat ⊕ κ} {c : Connection toJson} {sys : System (Nat ⊕ κ) σ toJson},
      c.client = sys.clients k ∨ k ≠ .inl p → (sys.set k c).clients (.inl p) = sys.clients (.inl p) := by
    intro k c sys hk
    rw [clients_set, Function.update_apply]
    split
    · rename_i heq
      rcases hk with hk | hk
      · rw [hk, heq]
      · exact absurd heq.symm hk
    · rfl
  cases step_moves fromJson convert numberText srv h with
  | state he => exact hset (.inl rfl)
  | @client k e c hc =>
    cases k with
    | inl q => cases he
    | inr q => exact hset (.inr (by simp))
  | @toServer k n requests c hc =>
    have hframe := foldl_serve_frame convert numberText srv k requests (sys.set k c) (.inl p)
    exact hframe.2.1.trans (hset (.inl (Connection.read_spec hc).2.1))
  | @toClient k n c hc =>
    cases k with
    | inl q => cases he
    | inr q => exact hset (.inr (by simp))
  | notify key value =>
    unfold notify clients
    cases serviceNotificationReceived key value with
    | none => rfl
    | some n =>
      simp only
      split <;> rfl

/-! ### Two calls -/

theorem lt_of_first {served : List (κ × JsonObject)} {k : κ} {a b : JsonObject} {i j : Nat}
    (hfirst : requestsOf k served <+: [a, b]) (hab : a ≠ b) (hi : served[i]? = some (k, a))
    (hj : served[j]? = some (k, b)) : i < j := by
  by_contra hle
  have hne : j ≠ i := by
    rintro rfl
    rw [hi, Option.some.injEq, Prod.mk.injEq] at hj
    exact hab hj.2
  obtain ⟨hlt, hget⟩ := List.getElem?_eq_some_iff.1 hi
  have hsplit : served = served.take i ++ (k, a) :: served.drop (i + 1) := by
    rw [← hget, List.cons_getElem_drop_succ, List.take_append_drop]
  have hmem : b ∈ requestsOf k (served.take i) := by
    rw [mem_requestsOf]
    apply List.mem_of_getElem? (i := j)
    rw [List.getElem?_take, if_pos (by omega)]
    exact hj
  have hone : requestsOf k [(k, a)] = [a] := by simp [requestsOf]
  rw [hsplit, ← List.singleton_append, requestsOf_append, requestsOf_append, hone] at hfirst
  -- something comes before the first request, and it is the second one
  cases hl : requestsOf k (served.take i) with
  | nil => simp [hl] at hmem
  | cons x xs =>
    rw [hl, List.cons_append, List.cons_prefix_cons] at hfirst
    obtain ⟨rfl, hfirst⟩ := hfirst
    cases xs with
    | nil =>
      rw [hl, List.mem_singleton] at hmem
      exact hab hmem.symm
    | cons y ys =>
      have hlen := hfirst.length_le
      simp only [List.length_append, List.length_cons, List.length_nil] at hlen
      omega

/-- A client that sent two requests and got back a success for each: the server took them in that order, and each call
came to that success. -/
theorem Inv.two_calls {s₀ : σ} {P : JsonObject → Prop} (hi : Inv fromJson convert numberText srv s₀ [] sys)
    (hc : Codec toJson fromJson P) {k : κ} (hf : (sys.connections k).Faithful P) {a b : JsonObject}
    {ida idb : RequestId} {va vb : Json} (ha : JsonRpcClient.idOf a = some ida) (hb : JsonRpcClient.idOf b = some idb)
    (hsent : (sys.clients k).sent = [a, b])
    (hret : (sys.clients k).returned = [(ida, .success va), (idb, .success vb)]) :
    ∃ i j, i < j ∧ sys.served[i]? = some (k, a) ∧ sys.served[j]? = some (k, b) ∧
      callAt convert numberText srv s₀ sys.served i a = .success va ∧
      callAt convert numberText srv s₀ sys.served j b = .success vb := by
  have hfirst := hi.requestsOf_first hc hf
  have hids := (hi.connections k).records.ids
  have hnodup := List.nodup_reverse.2 (hi.connections k).records.nodup
  rw [clients] at hsent hret
  rw [hsent] at hfirst hids
  simp only [List.filterMap_cons, ha, hb, List.filterMap_nil] at hids
  rw [← hids] at hnodup
  have hne : ida ≠ idb := by simpa using hnodup
  have hcall : ∀ {id v}, (id, JsonRpcResult.success v) ∈ (sys.connections k).client.returned →
      ∃ (i : Nat) (request : JsonObject), sys.served[i]? = some (k, request) ∧ (request = a ∨ request = b) ∧
        JsonRpcClient.idOf request = some id ∧ callAt convert numberText srv s₀ sys.served i request = .success v := by
    intro id v hmem
    rcases hi.returned_call hc hf hmem with ht | ⟨i, request, hget, hid, hcall⟩
    · cases ht
    · have hmem : request ∈ [a, b] := hfirst.subset (mem_requestsOf.2 (List.mem_of_getElem? hget))
      exact ⟨i, request, hget, by simpa using hmem, hid, hcall.symm⟩
  obtain ⟨i, x, hi', hx, hxid, hxcall⟩ := @hcall ida va (by simp [hret])
  obtain ⟨j, y, hj', hy, hyid, hycall⟩ := @hcall idb vb (by simp [hret])
  have hxa : x = a := by
    rcases hx with rfl | rfl
    · rfl
    · rw [hb, Option.some.injEq] at hxid
      exact absurd hxid.symm hne
  have hyb : y = b := by
    rcases hy with rfl | rfl
    · rw [ha, Option.some.injEq] at hyid
      exact absurd hyid hne
    · rfl
  subst hxa
  subst hyb
  have hab : x ≠ y := by
    rintro rfl
    rw [ha, Option.some.injEq] at hb
    exact hne hb
  exact ⟨i, j, lt_of_first hfirst hab hi' hj', hi', hj', hxcall, hycall⟩

end System

/-! ## What the end of a call does to the launcher -/

namespace RpcWorld

variable {toVariant : Json → QVariant} {w w' : RpcWorld}

theorem world_step_started {w w' : World} {e : WorldEvent} (h : w.step e = some w') :
    w.worker.started <+: w'.worker.started := by
  cases e with
  | window e =>
    obtain ⟨_, app, _, rfl⟩ := step_window h
    exact List.prefix_rfl
  | dispatch =>
    obtain ⟨worker, hw, rfl⟩ := step_dispatch h
    obtain ⟨_, rfl⟩ := Worker.dispatch_eq hw
    exact List.prefix_rfl
  | worker e =>
    obtain ⟨worker, hw, rfl⟩ := step_worker h
    exact Worker.moves_started hw
  | deliver =>
    obtain ⟨r, _, rfl⟩ := step_deliver h
    exact List.prefix_rfl

/-- The log of started probes only grows. -/
theorem step_started {e : RpcEvent} (h : w.step toVariant e = some w') :
    w.world.worker.started <+: w'.world.worker.started := by
  cases step_moves h with
  | world he hworld => exact world_step_started hworld
  | received probe response => exact List.prefix_rfl
  | resume ht he h =>
    simp only [RpcWorld.resume, Option.bind_eq_some_iff, Option.map_eq_some_iff] at h
    obtain ⟨world, hworld, client', -, rfl⟩ := h
    exact world_step_started hworld

/-- The probe's client has begun the call in which the probe waits now, or the probe has reported. -/
theorem resume_turn {t : Turn} {result : Option QVariant} {client : JsonRpcClient} {clocks : List (Int × Int)}
    {id : RequestId} {utcOffset now : Int} (ht : w.world.worker.turn = some t)
    (h : w.resume t result id utcOffset now client clocks = some w') :
    ∃ client', w'.clients = Function.update w.clients t.probe client' ∧
      (w'.world.worker.turn = none ∧ client' = client ∨
        ∃ t', w'.world.worker.turn = some t' ∧ t'.probe = t.probe ∧
          goOn (some (.inl t'.phase)) id client = some client') := by
  cases resume_resumed ht h with
  | @call s rest phase client' hs hturn hf hc => exact ⟨client', rfl, .inr ⟨{ t with phase := phase }, rfl, rfl, hc⟩⟩
  | @report s rest status uptime hs hturn hf => exact ⟨client, rfl, .inl ⟨rfl, rfl⟩⟩

theorem connected_clients {t : Turn} {ok : Bool} {id : RequestId} (ht : w.world.worker.turn = some t)
    (h : w.step toVariant (.connected ok id) = some w') :
    t.phase ≠ .readServerName ∧ ∃ client', w'.clients = Function.update w.clients t.probe client' ∧
      (w'.world.worker.turn = none ∧ client' = w.clients t.probe ∨
        ∃ t', w'.world.worker.turn = some t' ∧ t'.probe = t.probe ∧
          goOn (some (.inl t'.phase)) id (w.clients t.probe) = some client') := by
  simp only [step, ht, Option.ite_none_right_eq_some] at h
  refine ⟨?_, resume_turn ht h.2⟩
  rw [h.1]
  decide

theorem returned_clients {t : Turn} {timedOut : Bool} {id : RequestId} {utcOffset now : Int}
    (ht : w.world.worker.turn = some t) (h : w.step toVariant (.returned timedOut id utcOffset now) = some w') :
    t.phase ≠ .readServerName ∧ ∃ client client', (w.clients t.probe).step (.returns timedOut) = some client ∧
      w'.clients = Function.update w.clients t.probe client' ∧
      (w'.world.worker.turn = none ∧ client' = client ∨
        ∃ t', w'.world.worker.turn = some t' ∧ t'.probe = t.probe ∧
          goOn (some (.inl t'.phase)) id client = some client') := by
  simp only [step, ht, Option.ite_none_right_eq_some, Option.bind_eq_some_iff] at h
  obtain ⟨hphase, client, hclient, p, -, h⟩ := h
  refine ⟨?_, client, ?_⟩
  · rcases hphase with hp | hp
    · rw [hp]
      decide
    · rw [hp]
      decide
  · obtain ⟨client', hclients, hturn⟩ := resume_turn ht h
    exact ⟨client', hclient, hclients, hturn⟩

/-- The innermost probe has been started, at the address of its turn. -/
theorem started_of_turn (hr : w.world.worker.Recorded) {t : Turn} (ht : w.world.worker.turn = some t)
    (hp : t.phase ≠ .readServerName) :
    ∃ probe, w.world.worker.started[t.probe]? = some probe ∧ probe.authAddr = t.serverAuthAddr := by
  obtain ⟨sweep, hs, hst⟩ := Option.bind_eq_some_iff.1 ht
  exact ⟨_, hr.turns sweep (List.mem_of_mem_head? hs) t hst hp, rfl⟩

/-- A probe of another address is none of those that may be at this one. -/
theorem update_away {authAddr : String} {k p : Nat} {probe : Probe} {client : JsonRpcClient}
    (hk : w.world.worker.started[k]? = some probe) (haddr : probe.authAddr ≠ authAddr)
    (hp : ∀ q ∈ w.world.worker.started[p]?, q.authAddr = authAddr) :
    Function.update w.clients k client p = w.clients p := by
  rw [Function.update_of_ne]
  rintro rfl
  exact haddr (hp probe hk)

/-- The objects of a packet arrive one after the other. -/
theorem run_received {probe : Nat} {os : List JsonObject}
    (h : Runs.run (step toVariant) w (os.map (.received probe)) = some w') :
    w'.world = w.world ∧ w'.clients = Function.update w.clients probe ((w.clients probe).receiveObjects os) := by
  induction os generalizing w with
  | nil =>
    obtain rfl := Option.some.inj h
    exact ⟨rfl, (Function.update_eq_self probe w.clients).symm⟩
  | cons o os ih =>
    obtain ⟨w₁, hstep, hrest⟩ := Runs.run_cons.1 h
    simp only [step, Option.ite_none_right_eq_some, Option.some.injEq] at hstep
    obtain ⟨-, rfl⟩ := hstep
    obtain ⟨hworld, hclients⟩ := ih hrest
    refine ⟨hworld, ?_⟩
    simp only [Function.update_self, Function.update_idem] at hclients
    exact hclients

end RpcWorld

/-! ## Both sides have one client -/

namespace Stack

variable {κ σ : Type} [DecidableEq κ] {toJson : JsonObject → QByteArray} {authAddr : String}
  {toVariant : Json → QVariant} {fromJson : QByteArray → Document} {convert : String → Json → Option Json}
  {numberText : Int → Nat → String} {srv : JsonRpcServer σ} {s s' : Stack κ σ toJson}

/-- A probe that has not been started at another address has its client in a connection to the server. -/
def Coupled (authAddr : String) (s : Stack κ σ toJson) : Prop :=
  ∀ p, (∀ probe ∈ s.launcher.world.worker.started[p]?, probe.authAddr = authAddr) →
    s.server.clients (.inl p) = s.launcher.clients p

theorem started_mono {l l' : List Probe} (h : l <+: l') {p : Nat} (hp : ∀ probe ∈ l'[p]?, probe.authAddr = authAddr) :
    ∀ probe ∈ l[p]?, probe.authAddr = authAddr := by
  intro probe hprobe
  exact hp probe (getElem?_of_grown h hprobe)

omit [DecidableEq κ] in
/-- A step elsewhere. -/
theorem Coupled.elsewhere (hc : Coupled authAddr s) {launcher : RpcWorld}
    (hst : s.launcher.world.worker.started <+: launcher.world.worker.started)
    (hclients : ∀ p, (∀ probe ∈ s.launcher.world.worker.started[p]?, probe.authAddr = authAddr) →
      launcher.clients p = s.launcher.clients p) : Coupled authAddr { s with launcher := launcher } := by
  intro p hp
  have hold := started_mono hst hp
  exact (hc p hold).trans (hclients p hold).symm

/-- A step of one client on both sides. -/
theorem Coupled.update (hc : Coupled authAddr s) {launcher : RpcWorld} {server : System (Nat ⊕ κ) σ toJson} {k : Nat}
    {client : JsonRpcClient} (hst : s.launcher.world.worker.started <+: launcher.world.worker.started)
    (hl : launcher.clients = Function.update s.launcher.clients k client)
    (hs : server.clients = Function.update s.server.clients (.inl k) client) : Coupled authAddr ⟨launcher, server⟩ := by
  intro p hp
  have hold := hc p (started_mono hst hp)
  simp only [hl, hs, Function.update_apply, Sum.inl.injEq, hold]

theorem beginCall_clients {id : RequestId} {launcher : RpcWorld} {server server' : System (Nat ⊕ κ) σ toJson} {t : Turn}
    {client' : JsonRpcClient}
    (hturn : launcher.world.worker.turn = none ∧ client' = server.clients (.inl t.probe) ∨
      ∃ t', launcher.world.worker.turn = some t' ∧ t'.probe = t.probe ∧
        goOn (some (.inl t'.phase)) id (server.clients (.inl t.probe)) = some client')
    (h : beginCall fromJson convert numberText srv id launcher server = some server') :
    server'.clients = Function.update server.clients (.inl t.probe) client' := by
  rcases hturn with ⟨hnone, rfl⟩ | ⟨t', hsome, hprobe, hgo⟩
  · simp only [beginCall, hnone, Option.some.injEq] at h
    subst h
    exact (Function.update_eq_self _ _).symm
  · simp only [beginCall, hsome, hprobe] at h
    cases hp : t'.phase with
    | readServerName | connectToServer =>
      simp only [hp, Option.some.injEq] at h
      subst h
      simp only [hp, goOn, Option.some.injEq] at hgo
      subst hgo
      exact (Function.update_eq_self _ _).symm
    | ping | getStartTime =>
      simp only [hp] at h
      simp only [hp, goOn] at hgo
      obtain ⟨client, hclient, hclients⟩ := System.clients_client h
      rw [hgo, Option.some.injEq] at hclient
      rw [hclients, hclient]

/-! ## Either side alone -/

theorem beginCall_run {id : RequestId} {launcher : RpcWorld} {server server' : System (Nat ⊕ κ) σ toJson}
    (h : beginCall fromJson convert numberText srv id launcher server = some server') :
    ∃ es, Runs.run (System.step fromJson convert numberText srv) server es = some server' := by
  unfold beginCall at h
  split at h
  · exact ⟨[], h⟩
  · split at h
    · exact ⟨[_], by rw [Runs.run_singleton]; exact h⟩
    · exact ⟨[_], by rw [Runs.run_singleton]; exact h⟩
    · exact ⟨[], h⟩
    · exact ⟨[], h⟩

theorem launcher_step {e : StackEvent κ}
    (h : step authAddr toVariant fromJson convert numberText srv s e = some s') :
    ∃ es, Runs.run (RpcWorld.step toVariant) s.launcher es = some s'.launcher := by
  cases e with
  | launcher e =>
    simp only [step, Option.ite_none_right_eq_some] at h
    obtain ⟨launcher, hl, rfl⟩ := Option.map_eq_some_iff.1 h.2
    exact ⟨[e], by rw [Runs.run_singleton]; exact hl⟩
  | connected ok id =>
    simp only [step] at h
    cases ht : s.launcher.world.worker.turn with
    | none => simp [ht] at h
    | some t =>
      simp only [ht, Option.ite_none_right_eq_some, Option.bind_eq_some_iff, Option.map_eq_some_iff] at h
      obtain ⟨-, launcher, hl, -, -, -, -, rfl⟩ := h
      exact ⟨[_], by rw [Runs.run_singleton]; exact hl⟩
  | returned timedOut id utcOffset now =>
    simp only [step] at h
    cases ht : s.launcher.world.worker.turn with
    | none => simp [ht] at h
    | some t =>
      simp only [ht, Option.ite_none_right_eq_some, Option.bind_eq_some_iff, Option.map_eq_some_iff] at h
      obtain ⟨-, launcher, hl, -, -, -, -, rfl⟩ := h
      exact ⟨[_], by rw [Runs.run_singleton]; exact hl⟩
  | toProbe probe n =>
    simp only [step, Option.ite_none_right_eq_some, Option.bind_eq_some_iff, Option.map_eq_some_iff] at h
    obtain ⟨-, d, -, launcher, hl, -, -, rfl⟩ := h
    exact ⟨_, hl⟩
  | server e =>
    simp only [step, Option.ite_none_right_eq_some] at h
    obtain ⟨server, -, rfl⟩ := Option.map_eq_some_iff.1 h.2
    exact ⟨[], rfl⟩

theorem server_step {e : StackEvent κ}
    (h : step authAddr toVariant fromJson convert numberText srv s e = some s') :
    ∃ es, Runs.run (System.step fromJson convert numberText srv) s.server es = some s'.server := by
  cases e with
  | launcher e =>
    simp only [step, Option.ite_none_right_eq_some] at h
    obtain ⟨launcher, -, rfl⟩ := Option.map_eq_some_iff.1 h.2
    exact ⟨[], rfl⟩
  | connected ok id =>
    simp only [step] at h
    cases ht : s.launcher.world.worker.turn with
    | none => simp [ht] at h
    | some t =>
      simp only [ht, Option.ite_none_right_eq_some, Option.bind_eq_some_iff, Option.map_eq_some_iff] at h
      obtain ⟨-, launcher, -, server, hserver, server', hbegin, rfl⟩ := h
      obtain ⟨es, hes⟩ := beginCall_run hbegin
      cases ok with
      | true =>
        rw [if_pos rfl] at hserver
        exact ⟨_ :: es, Runs.run_cons.2 ⟨server, hserver, hes⟩⟩
      | false =>
        obtain rfl := Option.some.inj hserver
        exact ⟨es, hes⟩
  | returned timedOut id utcOffset now =>
    simp only [step] at h
    cases ht : s.launcher.world.worker.turn with
    | none => simp [ht] at h
    | some t =>
      simp only [ht, Option.ite_none_right_eq_some, Option.bind_eq_some_iff, Option.map_eq_some_iff] at h
      obtain ⟨-, launcher, -, server, hserver, server', hbegin, rfl⟩ := h
      obtain ⟨es, hes⟩ := beginCall_run hbegin
      exact ⟨_ :: es, Runs.run_cons.2 ⟨server, hserver, hes⟩⟩
  | toProbe probe n =>
    simp only [step, Option.ite_none_right_eq_some, Option.bind_eq_some_iff, Option.map_eq_some_iff] at h
    obtain ⟨-, d, -, launcher, -, server, hserver, rfl⟩ := h
    exact ⟨[_], by rw [Runs.run_singleton]; exact hserver⟩
  | server e =>
    simp only [step, Option.ite_none_right_eq_some] at h
    obtain ⟨server, hserver, rfl⟩ := Option.map_eq_some_iff.1 h.2
    exact ⟨[e], by rw [Runs.run_singleton]; exact hserver⟩

/-- **The launcher's side of a run is a run of the launcher with its clients.** -/
theorem launcher_run {es : List (StackEvent κ)}
    (h : Runs.run (step authAddr toVariant fromJson convert numberText srv) s es = some s') :
    ∃ fs, Runs.run (RpcWorld.step toVariant) s.launcher fs = some s'.launcher :=
  Runs.run_project launcher_step h

/-- **The server's side of a run is a run of the server with its clients.** -/
theorem server_run {es : List (StackEvent κ)}
    (h : Runs.run (step authAddr toVariant fromJson convert numberText srv) s es = some s') :
    ∃ fs, Runs.run (System.step fromJson convert numberText srv) s.server fs = some s'.server :=
  Runs.run_project server_step h

omit [DecidableEq κ] in
theorem coupled_init (stores : Stores) (s₀ : σ) :
    Coupled authAddr (init stores s₀ : Stack κ σ toJson) := fun _ _ => rfl

omit [DecidableEq κ] in
theorem Coupled.of_started (hc : Coupled authAddr s) {p : Nat} {probe : Probe}
    (hp : s.launcher.world.worker.started[p]? = some probe) (haddr : probe.authAddr = authAddr) :
    s.server.clients (.inl p) = s.launcher.clients p := by
  apply hc
  intro q hq
  rw [hp, Option.mem_some_iff] at hq
  rw [← hq, haddr]

omit [DecidableEq κ] in
theorem coupled_elsewhere {e : RpcEvent} {launcher : RpcWorld} (he : s.launcher.elsewhere authAddr e = true)
    (hl : s.launcher.step toVariant e = some launcher) (hr : s.launcher.world.worker.Recorded)
    (hc : Coupled authAddr s) : Coupled authAddr { s with launcher := launcher } := by
  refine hc.elsewhere (RpcWorld.step_started hl) ?_
  intro p hp
  cases e with
  | world e =>
    simp only [RpcWorld.step, Option.ite_none_left_eq_some] at hl
    obtain ⟨world, -, rfl⟩ := Option.map_eq_some_iff.1 hl.2
    rfl
  | connected ok id =>
    obtain ⟨t, ht, haddr⟩ := (Option.any_eq_true _ _).1 he
    obtain ⟨hphase, client', hclients, -⟩ := RpcWorld.connected_clients ht hl
    obtain ⟨probe, hprobe, hpaddr⟩ := RpcWorld.started_of_turn hr ht hphase
    rw [hclients]
    exact RpcWorld.update_away hprobe (by simpa [hpaddr] using haddr) hp
  | returned timedOut id utcOffset now =>
    obtain ⟨t, ht, haddr⟩ := (Option.any_eq_true _ _).1 he
    obtain ⟨hphase, client, client', -, hclients, -⟩ := RpcWorld.returned_clients ht hl
    obtain ⟨probe, hprobe, hpaddr⟩ := RpcWorld.started_of_turn hr ht hphase
    rw [hclients]
    exact RpcWorld.update_away hprobe (by simpa [hpaddr] using haddr) hp
  | received k response =>
    obtain ⟨probe, hprobe, haddr⟩ := (Option.any_eq_true _ _).1 he
    simp only [RpcWorld.step, Option.ite_none_right_eq_some, Option.some.injEq] at hl
    obtain ⟨-, rfl⟩ := hl
    exact RpcWorld.update_away hprobe (by simpa using haddr) hp

/-- The end of `connectToServer` makes a connection, and no client changes by that. -/
theorem coupled_connected {t : Turn} {ok : Bool} {id : RequestId} {launcher : RpcWorld}
    {server server' : System (Nat ⊕ κ) σ toJson} (ht : s.launcher.world.worker.turn = some t)
    (haddr : t.serverAuthAddr = authAddr) (hl : s.launcher.step toVariant (.connected ok id) = some launcher)
    (hserver : (if ok then s.server.step fromJson convert numberText srv (.connect (.inl t.probe)) else some s.server) =
      some server)
    (hbegin : beginCall fromJson convert numberText srv id launcher server = some server')
    (hr : s.launcher.world.worker.Recorded) (hc : Coupled authAddr s) : Coupled authAddr ⟨launcher, server'⟩ := by
  obtain ⟨hphase, client', hclients, hturn'⟩ := RpcWorld.connected_clients ht hl
  obtain ⟨probe, hprobe, hpaddr⟩ := RpcWorld.started_of_turn hr ht hphase
  have hsame : server.clients = s.server.clients := by
    cases ok with
    | true =>
      rw [if_pos rfl] at hserver
      exact System.clients_connect hserver
    | false =>
      obtain rfl := Option.some.inj hserver
      rfl
  rw [← hc.of_started hprobe (hpaddr.trans haddr), ← hsame] at hturn'
  refine hc.update (RpcWorld.step_started hl) hclients ?_
  rw [beginCall_clients hturn' hbegin, hsame]

/-- The wait of a call ends on both sides, with the same result. -/
theorem coupled_returned {t : Turn} {timedOut : Bool} {id : RequestId} {utcOffset now : Int} {launcher : RpcWorld}
    {server server' : System (Nat ⊕ κ) σ toJson} (ht : s.launcher.world.worker.turn = some t)
    (haddr : t.serverAuthAddr = authAddr)
    (hl : s.launcher.step toVariant (.returned timedOut id utcOffset now) = some launcher)
    (hserver : s.server.step fromJson convert numberText srv (.client (.inl t.probe) (.returns timedOut)) = some server)
    (hbegin : beginCall fromJson convert numberText srv id launcher server = some server')
    (hr : s.launcher.world.worker.Recorded) (hc : Coupled authAddr s) : Coupled authAddr ⟨launcher, server'⟩ := by
  obtain ⟨hphase, client, client', hclient, hclients, hturn'⟩ := RpcWorld.returned_clients ht hl
  obtain ⟨probe, hprobe, hpaddr⟩ := RpcWorld.started_of_turn hr ht hphase
  obtain ⟨client₁, hclient₁, hupdate⟩ := System.clients_client hserver
  rw [hc.of_started hprobe (hpaddr.trans haddr), hclient, Option.some.injEq] at hclient₁
  subst hclient₁
  have hself : server.clients (.inl t.probe) = client := by rw [hupdate, Function.update_self]
  rw [← hself] at hturn'
  refine hc.update (RpcWorld.step_started hl) hclients ?_
  rw [beginCall_clients hturn' hbegin, hupdate, Function.update_idem]

theorem coupled_step {e : StackEvent κ} (h : step authAddr toVariant fromJson convert numberText srv s e = some s')
    (hr : s.launcher.world.worker.Recorded) (hc : Coupled authAddr s) : Coupled authAddr s' := by
  cases e with
  | launcher e =>
    simp only [step, Option.ite_none_right_eq_some] at h
    obtain ⟨he, h⟩ := h
    obtain ⟨launcher, hl, rfl⟩ := Option.map_eq_some_iff.1 h
    exact coupled_elsewhere he hl hr hc
  | connected ok id =>
    simp only [step] at h
    cases ht : s.launcher.world.worker.turn with
    | none => simp [ht] at h
    | some t =>
      simp only [ht, Option.ite_none_right_eq_some, Option.bind_eq_some_iff, Option.map_eq_some_iff] at h
      obtain ⟨haddr, launcher, hl, server, hserver, server', hbegin, rfl⟩ := h
      exact coupled_connected ht haddr hl hserver hbegin hr hc
  | returned timedOut id utcOffset now =>
    simp only [step] at h
    cases ht : s.launcher.world.worker.turn with
    | none => simp [ht] at h
    | some t =>
      simp only [ht, Option.ite_none_right_eq_some, Option.bind_eq_some_iff, Option.map_eq_some_iff] at h
      obtain ⟨haddr, launcher, hl, server, hserver, server', hbegin, rfl⟩ := h
      exact coupled_returned ht haddr hl hserver hbegin hr hc
  | toProbe probe n =>
    simp only [step, Option.ite_none_right_eq_some, Option.bind_eq_some_iff, Option.map_eq_some_iff] at h
    obtain ⟨⟨-, hat⟩, d, hd, launcher, hl, server, hserver, rfl⟩ := h
    obtain ⟨hworld, hclients⟩ := RpcWorld.run_received hl
    obtain ⟨pr, hpr, haddr⟩ := (Option.any_eq_true _ _).1 hat
    refine hc.update (by rw [hworld]) hclients ?_
    rw [System.clients_toClient hd hserver, hc.of_started hpr (by simpa using haddr)]
  | server e =>
    simp only [step, Option.ite_none_right_eq_some] at h
    obtain ⟨he, h⟩ := h
    obtain ⟨server, hserver, rfl⟩ := Option.map_eq_some_iff.1 h
    intro p hp
    rw [System.clients_ofServer he hserver p]
    exact hc p hp

structure StackInv (toVariant : Json → QVariant) (authAddr : String) (s : Stack κ σ toJson) : Prop where
  rpc : RpcWorld.RpcInv toVariant s.launcher
  coupled : Coupled authAddr s

omit [DecidableEq κ] in
theorem stackInv_init (stores : Stores) (s₀ : σ) :
    StackInv toVariant authAddr (init stores s₀ : Stack κ σ toJson) :=
  ⟨RpcWorld.rpcInv_init stores, coupled_init stores s₀⟩

theorem stackInv_step {e : StackEvent κ} (h : step authAddr toVariant fromJson convert numberText srv s e = some s')
    (hi : StackInv toVariant authAddr s) : StackInv toVariant authAddr s' := by
  obtain ⟨es, hes⟩ := launcher_step h
  exact ⟨Runs.run_inv RpcWorld.rpcInv_step hes hi.rpc, coupled_step h hi.rpc.recorded hi.coupled⟩

/-! ## A server shown online has served -/

/-- The server took the probe's `ping` and later its `getStartTime`, both calls succeeded on the services as they were
then, and the days are counted from what the second one returned, by the launcher's clock at that return. -/
def Served (toVariant : Json → QVariant) (convert : String → Json → Option Json) (numberText : Int → Nat → String)
    (srv : JsonRpcServer σ) (s₀ : σ) (s : Stack κ σ toJson) (probe : Nat) (uptime : String) : Prop :=
  ∃ (i j : Nat) (id₁ id₂ : RequestId) (v₁ v₂ : Json) (clock : Int × Int) (utcOffset now : Int), i < j ∧
    s.server.served[i]? = some (.inl probe, createRequestJsonObject "ping" id₁) ∧
    s.server.served[j]? = some (.inl probe, createRequestJsonObject "getStartTime" id₂) ∧
    System.callAt convert numberText srv s₀ s.server.served i (createRequestJsonObject "ping" id₁) = .success v₁ ∧
    System.callAt convert numberText srv s₀ s.server.served j (createRequestJsonObject "getStartTime" id₂) =
      .success v₂ ∧
    s.launcher.clocks probe = [clock, (utcOffset, now)] ∧ uptime = uptimeDays (toVariant v₂) utcOffset now

/-- A server whose start time another client can move on by a day. -/
def authServer : JsonRpcServer Nat where
  services := [⟨"", [⟨"ping", [], fun _ n => some (n, .string "pong")⟩,
    ⟨"getStartTime", [], fun _ n => some (n, .string s!"{n}")⟩,
    ⟨"restart", [], fun _ n => some (n + 86400, .string "")⟩]⟩]
  nsSeparator := ""

/-- The members of the three requests and of the responses. -/
def authTraffic : List (List (String × String)) :=
  [[("jsonrpc", "2.0"), ("method", "ping"), ("id", "a")], [("jsonrpc", "2.0"), ("id", "a"), ("result", "pong")],
    [("jsonrpc", "2.0"), ("method", "restart"), ("id", "x")], [("jsonrpc", "2.0"), ("id", "x"), ("result", "")],
    [("jsonrpc", "2.0"), ("method", "getStartTime"), ("id", "b")],
    [("jsonrpc", "2.0"), ("id", "b"), ("result", "86400")]]

/-- One local server, one dispatcher call. The server is restarted between the two requests of the probe. -/
def restartRun : Option (Stack Unit Nat toPlainJson) :=
  Runs.run (step "10.0.0.1" RpcWorld.plainVariant (fromPlainJson authTraffic) (fun _ v => some v) (fun _ _ => "")
      authServer) (init ⟨∅, ∅⟩ 0)
    [.launcher (.world (.window .fetchServerList)), .launcher (.world (.window (.serversReply none))),
      .launcher (.world (.window (.addToServerList "Main" "10.0.0.1"))), .launcher (.world .dispatch),
      .launcher (.world (.worker .advance)), .launcher (.world (.worker .advance)),
      .launcher (.world (.worker .advance)), .server (.connect (.inr ())), .connected true "a",
      .server (.client (.inr ()) (.call "x" "restart" (.list []))), .server (.toServer (.inl 0) 62),
      .server (.toServer (.inr ()) 65), .toProbe 0 62, .returned false "b" 3600 863999, .server (.toServer (.inl 0) 70),
      .toProbe 0 63, .returned false "" 3600 864000, .launcher (.world (.worker .advance)),
      .launcher (.world .deliver)]

end Stack

end SegsLauncher
