import SegsLauncher.Endpoint
import SegsLauncher.RpcServer
import Mathlib.Logic.Function.Basic
import Mathlib.Data.List.Infix
/-!
# Clients and a server over sockets

Any number of clients connect to one server, call it and go. Every direction of a connection is a stream of
bytes that the socket delivers in packets as it likes (`json_rpc_tcp_socket.cpp:118`); each end has an
endpoint that cuts the objects out and hands them on at once. The server takes the requests of all clients
one after the other, as they come out of its endpoints, and its services have notifications for all clients
in between.

| here | there |
| --- | --- |
| `Wire`                      | one direction of a connection, with the endpoint at its end |
| `Wire.send`                 | `JsonRpcEndpoint::send` (`json_rpc_endpoint.cpp:115`) |
| `Wire.deliver`              | the socket reads what has arrived |
| `Connection.act`            | the client does something on its own: a call begins or ends, a notification is sent |
| `System.serve`              | `JsonRpcServer::jsonRequestReceived`, its response sent to the same client |
| `System.notify`             | `serviceNotificationReceived` (`json_rpc_server.cpp:522`) |
| `Event.connect`, `.disconnect` | `newConnection`, `disconnectClient` (`json_rpc_tcp_server.cpp:68`, `:113`), which keep `m_client_endpoints` |

`sent`, `packets`, `served` and `notified` are not in the source: they record what was sent on a wire, how it
was cut, the order in which the server took the requests, and the notifications.
-/
namespace SegsLauncher

open Framing.Delimiters JsonText

/-! ## Wires -/

/-- What was sent is what was delivered and what is under way. -/
structure Wire (toJson : JsonObject → QByteArray) where
  sent : List JsonObject := []
  packets : List QByteArray := []
  transit : QByteArray := []
  stream : packets.flatten ++ transit = sent.flatMap toJson := by rfl
  nonempty : ∀ p ∈ packets, p ≠ [] := by simp

namespace Wire

variable {toJson : JsonObject → QByteArray} {fromJson : QByteArray → Document} {P : JsonObject → Prop}

def send (o : JsonObject) (w : Wire toJson) : Wire toJson where
  sent := w.sent ++ [o]
  packets := w.packets
  transit := w.transit ++ toJson o
  stream := by rw [← List.append_assoc, w.stream, List.flatMap_append, List.flatMap_singleton]
  nonempty := w.nonempty

/-- The endpoint at the end of the wire. -/
def endpoint (w : Wire toJson) : JsonRpcEndpoint := JsonRpcEndpoint.read w.packets

/-- A packet of `n` bytes, and the objects its endpoint hands on. -/
def deliver (fromJson : QByteArray → Document) (n : Nat) (w : Wire toJson) : Option (List JsonObject × Wire toJson) :=
  if h : 0 < n ∧ n ≤ w.transit.length then
    let packet := w.transit.take n
    some (w.endpoint.signalled fromJson packet,
      { sent := w.sent
        packets := w.packets ++ [packet]
        transit := w.transit.drop n
        stream := by
          rw [List.flatten_append, List.flatten_singleton, List.append_assoc, List.take_append_drop, w.stream]
        nonempty := by
          intro p hp
          rcases List.mem_append.1 hp with hp | hp
          · exact w.nonempty p hp
          · rw [List.mem_singleton.1 hp]
            exact List.ne_nil_of_length_pos (by rw [List.length_take]; omega) })
  else none

/-- The objects handed on so far. -/
def received (fromJson : QByteArray → Document) (w : Wire toJson) : List JsonObject := w.endpoint.emitted fromJson

theorem deliver_spec {w w' : Wire toJson} {n : Nat} {os : List JsonObject} (h : w.deliver fromJson n = some (os, w')) :
    w'.sent = w.sent ∧ w'.received fromJson = w.received fromJson ++ os ∧ w.packets <+: w'.packets := by
  simp only [deliver, Option.dite_none_right_eq_some, Option.some.injEq, Prod.mk.injEq] at h
  obtain ⟨-, rfl, rfl⟩ := h
  refine ⟨rfl, ?_, List.prefix_append _ _⟩
  have hread : JsonRpcEndpoint.read (w.packets ++ [w.transit.take n]) =
      (JsonRpcEndpoint.read w.packets).dataReady (w.transit.take n) := List.foldl_append
  simp only [received, endpoint, hread]
  exact JsonRpcEndpoint.emitted_dataReady fromJson _ _

/-- Every packet has ended outside the white space of a string, and only objects of `P` were sent. -/
structure Faithful (P : JsonObject → Prop) (w : Wire toJson) : Prop where
  clean : ∀ q, q <+: w.packets → braces.Clean q.flatten
  objects : ∀ o ∈ w.sent, P o

/-- **What is handed on is what was sent first**, and all of it once nothing is under way. -/
theorem Faithful.received_first {w : Wire toJson} (hc : Codec toJson fromJson P) (h : w.Faithful P) :
    w.received fromJson <+: w.sent ∧ (w.transit = [] → w.received fromJson = w.sent) :=
  emitted_of_clean hc h.objects w.stream w.nonempty h.clean

theorem Faithful.of_grown {w w' : Wire toJson} (h : w'.Faithful P) (hs : w.sent <+: w'.sent)
    (hp : w.packets <+: w'.packets) : w.Faithful P :=
  ⟨fun q hq => h.clean q (hq.trans hp), fun o ho => h.objects o (hs.subset ho)⟩

theorem foldl_send (os : List JsonObject) (w : Wire toJson) :
    (os.foldl (fun w o => w.send o) w).sent = w.sent ++ os ∧ (os.foldl (fun w o => w.send o) w).packets = w.packets := by
  induction os generalizing w with
  | nil => simp
  | cons o os ih =>
    obtain ⟨hs, hp⟩ := ih (w.send o)
    refine ⟨?_, hp⟩
    rw [List.foldl_cons, hs]
    simp [send]

theorem received_eq_of_packets {w w' : Wire toJson} (h : w'.packets = w.packets) :
    w'.received fromJson = w.received fromJson := by
  simp only [received, endpoint, h]

end Wire

/-! ## Connections -/

inductive ConnectionState where
  | unconnected
  | connected
  | disconnected
deriving DecidableEq

/-- A client and the two directions between it and the server. -/
structure Connection (toJson : JsonObject → QByteArray) where
  state : ConnectionState := .unconnected
  client : JsonRpcClient := {}
  /-- From the client to the server. -/
  up : Wire toJson := {}
  down : Wire toJson := {}

def isReceived : JsonRpcClient.Event → Bool
  | .received _ => true
  | _ => false

namespace Connection

variable {toJson : JsonObject → QByteArray} {fromJson : QByteArray → Document} {P : JsonObject → Prop}

/-- The client does something on its own; what it sends goes on the wire. -/
def act (e : JsonRpcClient.Event) (c : Connection toJson) : Option (Connection toJson) :=
  if isReceived e then none
  else (c.client.step e).map fun client =>
    { c with
      client := client
      up := (client.sent.drop c.client.sent.length).foldl (fun w o => w.send o) c.up }

/-- The server sends an object. -/
def send (o : JsonObject) (c : Connection toJson) : Connection toJson := { c with down := c.down.send o }

/-- The server's endpoint reads. -/
def read (fromJson : QByteArray → Document) (n : Nat) (c : Connection toJson) :
    Option (List JsonObject × Connection toJson) :=
  (c.up.deliver fromJson n).map fun p => (p.1, { c with up := p.2 })

/-- The client's endpoint reads. -/
def hear (fromJson : QByteArray → Document) (n : Nat) (c : Connection toJson) : Option (Connection toJson) :=
  (c.down.deliver fromJson n).map fun p => { c with client := c.client.receiveObjects p.1, down := p.2 }

theorem act_spec {e : JsonRpcClient.Event} {c c' : Connection toJson} (h : c.act e = some c') :
    (∀ response, e ≠ .received response) ∧ c.client.step e = some c'.client ∧ c'.state = c.state ∧ c'.down = c.down ∧
      c'.up.packets = c.up.packets ∧ c'.up.sent = c.up.sent ++ c'.client.sent.drop c.client.sent.length := by
  simp only [act, Option.ite_none_left_eq_some] at h
  obtain ⟨hr, h⟩ := h
  obtain ⟨client, hc, rfl⟩ := Option.map_eq_some_iff.1 h
  obtain ⟨hsent, hpackets⟩ := Wire.foldl_send (client.sent.drop c.client.sent.length) c.up
  refine ⟨?_, hc, rfl, rfl, hpackets, hsent⟩
  rintro response rfl
  exact hr rfl

theorem read_spec {n : Nat} {requests : List JsonObject} {c c' : Connection toJson}
    (h : c.read fromJson n = some (requests, c')) :
    c'.state = c.state ∧ c'.client = c.client ∧ c'.down = c.down ∧ c'.up.sent = c.up.sent ∧
      c'.up.received fromJson = c.up.received fromJson ++ requests ∧ c.up.packets <+: c'.up.packets := by
  obtain ⟨⟨os, w⟩, hd, heq⟩ := Option.map_eq_some_iff.1 h
  simp only [Prod.mk.injEq] at heq
  obtain ⟨rfl, rfl⟩ := heq
  exact ⟨rfl, rfl, rfl, Wire.deliver_spec hd⟩

theorem hear_spec {n : Nat} {c c' : Connection toJson} (h : c.hear fromJson n = some c') :
    ∃ os, c'.state = c.state ∧ c'.client = c.client.receiveObjects os ∧ c'.up = c.up ∧ c'.down.sent = c.down.sent ∧
      c'.down.received fromJson = c.down.received fromJson ++ os ∧ c.down.packets <+: c'.down.packets := by
  obtain ⟨⟨os, w⟩, hd, rfl⟩ := Option.map_eq_some_iff.1 h
  exact ⟨os, rfl, rfl, rfl, Wire.deliver_spec hd⟩

/-! ### What holds of a connection however its streams are cut -/

/-- The wires carry what the client sent and, of answers, the responses; and the client has signalled only what it
received. -/
structure Inv (fromJson : QByteArray → Document) (requests responses : List JsonObject) (c : Connection toJson) :
    Prop where
  sent : c.up.sent = c.client.sent
  requests : c.up.received fromJson = requests
  responses : c.down.sent.filter (fun o => (answerOf o).isSome) = responses
  books : c.client.Inv
  records : c.client.SentInv
  signals : ∀ p ∈ c.client.signals, ∃ o ∈ c.down.received fromJson, answerOf o = some p

section Inv
variable {requests responses : List JsonObject} {c c' : Connection toJson}

theorem inv_init : Inv fromJson [] [] ({} : Connection toJson) where
  sent := rfl
  requests := rfl
  responses := rfl
  books := JsonRpcClient.inv_init
  records := JsonRpcClient.sentInv_init
  signals := fun _ h => nomatch h

theorem Inv.state (hi : c.Inv fromJson requests responses) (state : ConnectionState) :
    ({ c with state := state } : Connection toJson).Inv fromJson requests responses :=
  ⟨hi.sent, hi.requests, hi.responses, hi.books, hi.records, hi.signals⟩

theorem Inv.act (hi : c.Inv fromJson requests responses) {e : JsonRpcClient.Event} (h : c.act e = some c') :
    c'.Inv fromJson requests responses := by
  obtain ⟨hne, hstep, -, hdown, hpackets, hsent⟩ := act_spec h
  obtain ⟨hpre, hsig, -, -⟩ := JsonRpcClient.local_step hstep hne
  refine ⟨?_, ?_, ?_, JsonRpcClient.inv_step hstep hi.books, JsonRpcClient.sentInv_step hstep hi.records, ?_⟩
  · rw [hsent, hi.sent]
    exact List.prefix_iff_eq_append.1 hpre
  · rw [Wire.received_eq_of_packets hpackets]
    exact hi.requests
  · rw [hdown]
    exact hi.responses
  · rw [hsig, hdown]
    exact hi.signals

theorem Inv.send (hi : c.Inv fromJson requests responses) (o : JsonObject) :
    (c.send o).Inv fromJson requests (responses ++ if (answerOf o).isSome then [o] else []) := by
  refine ⟨hi.sent, hi.requests, ?_, hi.books, hi.records, hi.signals⟩
  simp only [Connection.send, Wire.send, List.filter_append, hi.responses, List.filter_cons, List.filter_nil]

theorem Inv.read (hi : c.Inv fromJson requests responses) {n : Nat} {os : List JsonObject}
    (h : c.read fromJson n = some (os, c')) : c'.Inv fromJson (requests ++ os) responses := by
  obtain ⟨-, hclient, hdown, hsent, hreceived, -⟩ := read_spec h
  refine ⟨?_, ?_, ?_, hclient ▸ hi.books, hclient ▸ hi.records, ?_⟩
  · rw [hsent, hclient, hi.sent]
  · rw [hreceived, hi.requests]
  · rw [hdown, hi.responses]
  · rw [hclient, hdown]
    exact hi.signals

theorem Inv.hear (hi : c.Inv fromJson requests responses) {n : Nat} (h : c.hear fromJson n = some c') :
    c'.Inv fromJson requests responses := by
  obtain ⟨os, -, hclient, hup, hsent, hreceived, -⟩ := hear_spec h
  have hears := JsonRpcClient.receiveObjects_hears os c.client
  obtain ⟨hbooks, hrecords⟩ := JsonRpcClient.receiveObjects_inv os hi.books hi.records
  rw [← hclient] at hears hbooks hrecords
  refine ⟨?_, ?_, ?_, hbooks, hrecords, ?_⟩
  · rw [hup, hears.sent, hi.sent]
  · rw [hup, hi.requests]
  · rw [hsent, hi.responses]
  · intro p hp
    rw [hreceived]
    rcases hears.signals p hp with hp | ⟨o, ho, ha⟩
    · obtain ⟨o, ho, ha⟩ := hi.signals p hp
      exact ⟨o, List.mem_append_left _ ho, ha⟩
    · exact ⟨o, List.mem_append_right _ ho, ha⟩

end Inv

/-! ### What a connection has been through -/

/-- Nothing is taken back from the wires. -/
structure Grows (c c' : Connection toJson) : Prop where
  up : c.up.sent <+: c'.up.sent ∧ c.up.packets <+: c'.up.packets
  down : c.down.sent <+: c'.down.sent ∧ c.down.packets <+: c'.down.packets

theorem Grows.of_eq {c c' : Connection toJson} (hup : c'.up = c.up) (hdown : c'.down = c.down) : Grows c c' := by
  refine ⟨?_, ?_⟩
  · rw [hup]
    exact ⟨List.prefix_rfl, List.prefix_rfl⟩
  · rw [hdown]
    exact ⟨List.prefix_rfl, List.prefix_rfl⟩

theorem Grows.trans {a b c : Connection toJson} (h : Grows a b) (h' : Grows b c) : Grows a c where
  up := ⟨h.up.1.trans h'.up.1, h.up.2.trans h'.up.2⟩
  down := ⟨h.down.1.trans h'.down.1, h.down.2.trans h'.down.2⟩

theorem send_grows (o : JsonObject) (c : Connection toJson) : Grows c (c.send o) where
  up := ⟨List.prefix_rfl, List.prefix_rfl⟩
  down := ⟨List.prefix_append _ _, List.prefix_rfl⟩

/-- Both streams come through. -/
def Faithful (P : JsonObject → Prop) (c : Connection toJson) : Prop := c.up.Faithful P ∧ c.down.Faithful P

theorem Faithful.of_grown {c c' : Connection toJson} (h : c'.Faithful P) (hg : Grows c c') : c.Faithful P :=
  ⟨h.1.of_grown hg.up.1 hg.up.2, h.2.of_grown hg.down.1 hg.down.2⟩

/-- Both streams have come through, as far as that can be computed: no packet has ended in a string, and only known
objects were sent. -/
def cameThrough (known : List (List (String × String))) (c : Connection toPlainJson) : Bool :=
  [c.up, c.down].all fun w => (w.packets.inits.all fun q => (braces.run {} q.flatten).string = none) &&
    w.sent.all fun o => known.any fun members => membersOf o = some members

theorem faithful_of_cameThrough {known : List (List (String × String))} {c : Connection toPlainJson}
    (h : c.cameThrough known = true) : c.Faithful (IsKnown known) := by
  have hwire : ∀ w ∈ [c.up, c.down], w.Faithful (IsKnown known) := by
    intro w hw
    have hboth := List.all_eq_true.1 h w hw
    simp only [Bool.and_eq_true, List.all_eq_true, List.any_eq_true, decide_eq_true_eq, List.mem_inits] at hboth
    refine ⟨?_, ?_⟩
    · intro q hq hopen
      exact absurd (hboth.1 q hq) hopen
    · intro o ho
      obtain ⟨members, hmem, heq⟩ := hboth.2 o ho
      exact ⟨members, hmem, plainObject_of_membersOf heq⟩
  exact ⟨hwire _ (by simp), hwire _ (by simp)⟩

/-- A request with an answer is outstanding no longer. -/
def Settled (fromJson : QByteArray → Document) (c : Connection toJson) : Prop :=
  ∀ o ∈ c.down.received fromJson, ∀ id r, answerOf o = some (id, r) → id ∉ c.client.outstandingRequests

theorem Settled.of_eq {c c' : Connection toJson} (hs : c.Settled fromJson)
    (hreceived : c'.down.received fromJson = c.down.received fromJson) (hclient : c'.client = c.client) :
    c'.Settled fromJson := by
  unfold Settled
  rw [hreceived, hclient]
  exact hs

theorem Settled.act {c c' : Connection toJson} {e : JsonRpcClient.Event} (hs : c.Settled fromJson)
    (h : c.act e = some c')
    (hissued : ∀ o ∈ c.down.received fromJson, ∀ id r, answerOf o = some (id, r) → id ∈ c.client.issued) :
    c'.Settled fromJson := by
  obtain ⟨hne, hstep, -, hdown, -, -⟩ := act_spec h
  intro o ho id r ha hout
  rw [hdown] at ho
  -- only a request that was never sent before is newly outstanding
  rcases (JsonRpcClient.local_step hstep hne).2.2.2 id hout with hold | hnew
  · exact hs o ho id r ha hold
  · exact hnew (hissued o ho id r ha)

theorem Settled.hear {c c' : Connection toJson} {n : Nat} (hs : c.Settled fromJson)
    (h : c.hear fromJson n = some c') : c'.Settled fromJson := by
  obtain ⟨os, -, hclient, -, -, hreceived, -⟩ := hear_spec h
  have hears := JsonRpcClient.receiveObjects_hears os c.client
  rw [← hclient] at hears
  intro o ho id r ha hout
  rw [hreceived] at ho
  obtain ⟨hold, hnone⟩ := hears.outstanding id hout
  rcases List.mem_append.1 ho with ho | ho
  · exact hs o ho id r ha hold
  · exact hnone o ho r ha

end Connection

/-! ## The system -/

structure System (κ σ : Type) (toJson : JsonObject → QByteArray) where
  connections : κ → Connection toJson := fun _ => {}
  services : σ
  served : List (κ × JsonObject) := []
  notified : List (String × Json) := []

namespace System

variable {κ σ : Type} [DecidableEq κ] {toJson : JsonObject → QByteArray} (fromJson : QByteArray → Document)
  (convert : String → Json → Option Json) (numberText : Int → Nat → String) (srv : JsonRpcServer σ)

inductive Event (κ : Type) where
  | connect (k : κ)
  | disconnect (k : κ)
  | client (k : κ) (e : JsonRpcClient.Event)
  | toServer (k : κ) (n : Nat)
  | toClient (k : κ) (n : Nat)
  | notify (key : String) (value : ReturnValue)

/-- Nobody is connected. -/
def init (s₀ : σ) : System κ σ toJson := { services := s₀ }

def set (k : κ) (c : Connection toJson) (sys : System κ σ toJson) : System κ σ toJson :=
  { sys with connections := Function.update sys.connections k c }

/-- The server takes one request. -/
def serve (k : κ) (sys : System κ σ toJson) (request : JsonObject) : System κ σ toJson :=
  let (services, response) := JsonRpcServer.jsonRequestReceived convert numberText srv true request sys.services
  { sys with
    services := services
    served := sys.served ++ [(k, request)]
    connections := match response with
      | none => sys.connections
      | some r => Function.update sys.connections k ((sys.connections k).send r) }

/-- A service has a notification: it is sent to the clients that are connected. -/
def notify (key : String) (value : ReturnValue) (sys : System κ σ toJson) : System κ σ toJson :=
  match serviceNotificationReceived key value with
  | none => sys
  | some n => { sys with
      connections := fun k =>
        if (sys.connections k).state = .connected then (sys.connections k).send n else sys.connections k
      notified := sys.notified ++ [(key, n.get "params")] }

def step (sys : System κ σ toJson) : Event κ → Option (System κ σ toJson)
  | .connect k =>
    if (sys.connections k).state = .unconnected then
      some (sys.set k { sys.connections k with state := .connected })
    else none
  | .disconnect k =>
    if (sys.connections k).state = .connected then
      some (sys.set k { sys.connections k with state := .disconnected })
    else none
  | .client k e =>
    if (sys.connections k).state = .unconnected then none
    else ((sys.connections k).act e).map fun c => sys.set k c
  | .toServer k n =>
    if (sys.connections k).state = .connected then
      ((sys.connections k).read fromJson n).map fun p => p.1.foldl (serve convert numberText srv k) (sys.set k p.2)
    else none
  | .toClient k n => ((sys.connections k).hear fromJson n).map fun c => sys.set k c
  | .notify key value => some (sys.notify key value)

/-- What a step can be. -/
inductive Moves (sys : System κ σ toJson) : Event κ → System κ σ toJson → Prop
  | state {k : κ} {e : Event κ} {state : ConnectionState} (he : e = .connect k ∧ state = .connected ∨ e = .disconnect k) :
      Moves sys e (sys.set k { sys.connections k with state := state })
  | client {k : κ} {e : JsonRpcClient.Event} {c : Connection toJson} (hc : (sys.connections k).act e = some c) :
      Moves sys (.client k e) (sys.set k c)
  | toServer {k : κ} {n : Nat} {requests : List JsonObject} {c : Connection toJson}
      (hc : (sys.connections k).read fromJson n = some (requests, c)) :
      Moves sys (.toServer k n) (requests.foldl (serve convert numberText srv k) (sys.set k c))
  | toClient {k : κ} {n : Nat} {c : Connection toJson} (hc : (sys.connections k).hear fromJson n = some c) :
      Moves sys (.toClient k n) (sys.set k c)
  | notify (key : String) (value : ReturnValue) : Moves sys (.notify key value) (sys.notify key value)

theorem step_moves {sys sys' : System κ σ toJson} {e : Event κ}
    (h : step fromJson convert numberText srv sys e = some sys') :
    Moves fromJson convert numberText srv sys e sys' := by
  cases e with
  | connect k =>
    simp only [step, Option.ite_none_right_eq_some, Option.some.injEq] at h
    obtain ⟨-, rfl⟩ := h
    exact .state (.inl ⟨rfl, rfl⟩)
  | disconnect k =>
    simp only [step, Option.ite_none_right_eq_some, Option.some.injEq] at h
    obtain ⟨-, rfl⟩ := h
    exact .state (.inr rfl)
  | client k e =>
    simp only [step, Option.ite_none_left_eq_some] at h
    obtain ⟨c, hc, rfl⟩ := Option.map_eq_some_iff.1 h.2
    exact .client hc
  | toServer k n =>
    simp only [step, Option.ite_none_right_eq_some] at h
    obtain ⟨⟨requests, c⟩, hc, rfl⟩ := Option.map_eq_some_iff.1 h.2
    exact .toServer hc
  | toClient k n =>
    obtain ⟨c, hc, rfl⟩ := Option.map_eq_some_iff.1 h
    exact .toClient hc
  | notify key value =>
    obtain rfl := Option.some.inj h
    exact .notify key value

/-- **What taking a request does to a connection**: nothing, or the response to it is sent. -/
theorem serve_connection (k j : κ) (sys : System κ σ toJson) (request : JsonObject) :
    let response := if k = j then
      (JsonRpcServer.jsonRequestReceived convert numberText srv true request sys.services).2 else none
    response = none ∧ (serve convert numberText srv k sys request).connections j = sys.connections j ∨
      ∃ r, response = some r ∧
        (serve convert numberText srv k sys request).connections j = (sys.connections j).send r := by
  simp only [serve]
  cases hr : (JsonRpcServer.jsonRequestReceived convert numberText srv true request sys.services).2 with
  | none => exact .inl ⟨ite_self none, rfl⟩
  | some r =>
    by_cases hk : k = j
    · subst hk
      exact .inr ⟨r, if_pos rfl, Function.update_self ..⟩
    · exact .inl ⟨if_neg hk, Function.update_of_ne (Ne.symm hk) ..⟩

/-- A statement about every connection, after one of them has changed. -/
theorem forall_set {p : κ → Connection toJson → Prop} {k : κ} {c : Connection toJson} {sys : System κ σ toJson}
    (hc : p k c) (h : ∀ j, p j (sys.connections j)) : ∀ j, p j ((sys.set k c).connections j) :=
  (Function.forall_update_iff sys.connections p).2 ⟨hc, fun j _ => h j⟩

/-! ## The order of the requests -/

/-- The services after the requests, taken in this order. -/
def replay (s : σ) (served : List (κ × JsonObject)) : σ :=
  served.foldl (fun s p => (JsonRpcServer.jsonRequestReceived convert numberText srv true p.2 s).1) s

/-- The responses to one client. -/
def responsesTo (k : κ) (s : σ) (served : List (κ × JsonObject)) : List JsonObject :=
  match served with
  | [] => []
  | (j, request) :: served =>
    let (s', response) := JsonRpcServer.jsonRequestReceived convert numberText srv true request s
    (if j = k then response.toList else []) ++ responsesTo k s' served

/-- The requests of one client. -/
def requestsOf (k : κ) (served : List (κ × JsonObject)) : List JsonObject :=
  (served.filter fun p => p.1 = k).map Prod.snd

theorem requestsOf_append (k : κ) (l₁ l₂ : List (κ × JsonObject)) :
    requestsOf k (l₁ ++ l₂) = requestsOf k l₁ ++ requestsOf k l₂ := by
  simp [requestsOf]

theorem requestsOf_own (k j : κ) (requests : List JsonObject) :
    requestsOf j (requests.map (Prod.mk k)) = if j = k then requests else [] := by
  by_cases hj : j = k
  · simp [requestsOf, List.filter_map, Function.comp_def, hj]
  · simp [requestsOf, List.filter_map, Function.comp_def, hj, Ne.symm hj]

theorem mem_requestsOf {k : κ} {served : List (κ × JsonObject)} {request : JsonObject} :
    request ∈ requestsOf k served ↔ (k, request) ∈ served := by
  simp [requestsOf]

omit [DecidableEq κ] in
theorem replay_snoc (s : σ) (served : List (κ × JsonObject)) (p : κ × JsonObject) :
    replay convert numberText srv s (served ++ [p]) =
      (JsonRpcServer.jsonRequestReceived convert numberText srv true p.2 (replay convert numberText srv s served)).1 :=
  List.foldl_append

theorem responsesTo_snoc (k : κ) (s : σ) (served : List (κ × JsonObject)) (p : κ × JsonObject) :
    responsesTo convert numberText srv k s (served ++ [p]) =
      responsesTo convert numberText srv k s served ++
        (if p.1 = k then (JsonRpcServer.jsonRequestReceived convert numberText srv true p.2
          (replay convert numberText srv s served)).2 else none).toList := by
  induction served generalizing s with
  | nil =>
    by_cases hk : p.1 = k
    · simp [responsesTo, replay, hk]
    · simp [responsesTo, hk]
  | cons q served ih =>
    simp only [List.cons_append, responsesTo, ih, List.append_assoc]
    rfl

section Invariant
variable {fromJson : QByteArray → Document} {convert : String → Json → Option Json}
  {numberText : Int → Nat → String} {srv : JsonRpcServer σ}

/-- The requests taken explain the services and every connection; `pending` are requests the server has read and not
yet taken. -/
structure Inv (fromJson : QByteArray → Document) (convert : String → Json → Option Json)
    (numberText : Int → Nat → String) (srv : JsonRpcServer σ) (s₀ : σ) (pending : List (κ × JsonObject))
    (sys : System κ σ toJson) : Prop where
  services : sys.services = replay convert numberText srv s₀ sys.served
  connections : ∀ k, (sys.connections k).Inv fromJson (requestsOf k (sys.served ++ pending))
    (responsesTo convert numberText srv k s₀ sys.served)

theorem inv_init (s₀ : σ) :
    Inv fromJson convert numberText srv s₀ [] ({ services := s₀ } : System κ σ toJson) where
  services := rfl
  connections := fun _ => Connection.inv_init

theorem inv_serve {s₀ : σ} {k : κ} {request : JsonObject} {pending : List (κ × JsonObject)} {sys : System κ σ toJson}
    (hi : Inv fromJson convert numberText srv s₀ ((k, request) :: pending) sys) :
    Inv fromJson convert numberText srv s₀ pending (serve convert numberText srv k sys request) := by
  have hserved : (serve convert numberText srv k sys request).served = sys.served ++ [(k, request)] := rfl
  refine ⟨?_, ?_⟩
  · rw [hserved, replay_snoc, ← hi.services]
    rfl
  · intro j
    obtain ⟨⟨hsome, hans⟩, -⟩ :=
      JsonRpcServer.jsonRequestReceived_spec convert numberText srv true request sys.services
    rw [hserved, List.append_assoc, List.singleton_append, responsesTo_snoc, ← hi.services]
    have hj := hi.connections j
    rcases serve_connection convert numberText srv k j sys request with ⟨hnone, hconn⟩ | ⟨r, hr, hconn⟩
    · rw [hconn, hnone, Option.toList_none, List.append_nil]
      exact hj
    · rw [hconn, hr]
      have hsend := hj.send r
      rw [hans r (Option.ite_none_right_eq_some.1 hr).2] at hsend
      exact hsend

theorem inv_foldl_serve {s₀ : σ} {k : κ} (requests : List JsonObject) {sys : System κ σ toJson}
    (hi : Inv fromJson convert numberText srv s₀ (requests.map (Prod.mk k)) sys) :
    Inv fromJson convert numberText srv s₀ [] (requests.foldl (serve convert numberText srv k) sys) := by
  induction requests generalizing sys with
  | nil => exact hi
  | cons request requests ih => exact ih (inv_serve hi)

theorem inv_set {s₀ : σ} {k : κ} {c : Connection toJson} {sys : System κ σ toJson}
    (hi : Inv fromJson convert numberText srv s₀ [] sys)
    (hc : c.Inv fromJson (requestsOf k (sys.served ++ [])) (responsesTo convert numberText srv k s₀ sys.served)) :
    Inv fromJson convert numberText srv s₀ [] (sys.set k c) where
  services := hi.services
  connections := forall_set (p := fun k c => c.Inv fromJson (requestsOf k (sys.served ++ []))
    (responsesTo convert numberText srv k s₀ sys.served)) hc hi.connections

theorem inv_step {s₀ : σ} {sys sys' : System κ σ toJson} {e : Event κ}
    (h : step fromJson convert numberText srv sys e = some sys')
    (hi : Inv fromJson convert numberText srv s₀ [] sys) : Inv fromJson convert numberText srv s₀ [] sys' := by
  cases step_moves fromJson convert numberText srv h with
  | @state k e state he => exact inv_set hi ((hi.connections k).state state)
  | @client k e c hc => exact inv_set hi ((hi.connections k).act hc)
  | @toServer k n requests c hc =>
    apply inv_foldl_serve
    refine ⟨hi.services, ?_⟩
    intro j
    have hread := (hi.connections k).read hc
    simp only [List.append_nil] at hread
    simp only [set, requestsOf_append, requestsOf_own]
    by_cases hj : j = k
    · subst hj
      simpa using hread
    · simpa [hj] using hi.connections j
  | @toClient k n c hc => exact inv_set hi ((hi.connections k).hear hc)
  | notify key value =>
    unfold notify
    cases hn : serviceNotificationReceived key value with
    | none => exact hi
    | some n =>
      refine ⟨hi.services, ?_⟩
      intro j
      simp only
      by_cases hc : (sys.connections j).state = .connected
      · have hsend := (hi.connections j).send n
        rw [(notificationOf_sent hn).2] at hsend
        simpa [hc] using hsend
      · simpa [hc] using hi.connections j

/-- A response is the one to a request in its place. -/
theorem mem_responsesTo {k : κ} {s₀ : σ} {served : List (κ × JsonObject)} {o : JsonObject}
    (h : o ∈ responsesTo convert numberText srv k s₀ served) :
    ∃ (i : Nat) (request : JsonObject), served[i]? = some (k, request) ∧
      (JsonRpcServer.jsonRequestReceived convert numberText srv true request
        (replay convert numberText srv s₀ (served.take i))).2 = some o := by
  induction served generalizing s₀ with
  | nil => cases h
  | cons p served ih =>
    simp only [responsesTo] at h
    rcases List.mem_append.1 h with h | h
    · split at h
      · rename_i hk
        rw [Option.mem_toList] at h
        exact ⟨0, p.2, by simp [← hk], h⟩
      · cases h
    · obtain ⟨i, request, hget, hresp⟩ := ih h
      exact ⟨i + 1, request, by simpa using hget, hresp⟩

/-- The call that a request in its place in the order comes to. -/
def callAt (convert : String → Json → Option Json) (numberText : Int → Nat → String) (srv : JsonRpcServer σ) (s₀ : σ)
    (served : List (κ × JsonObject)) (i : Nat) (request : JsonObject) : JsonRpcResult :=
  JsonRpcServer.outcomeOf (request.get "method").toString
    ((JsonRpcServer.dispatchRequest convert srv request (replay convert numberText srv s₀ (served.take i))).map Prod.snd)

/-- The server answers every request of the system that has an id, with what it comes to in its place. -/
theorem exists_response {k : κ} {s₀ : σ} {served : List (κ × JsonObject)} {i : Nat} {request : JsonObject}
    {id : RequestId} (hget : served[i]? = some (k, request)) (htag : request.get "jsonrpc" = .string "2.0")
    (hid : request.get "id" = .string id) (hne : id ≠ InvalidRequestId) :
    ∃ o ∈ responsesTo convert numberText srv k s₀ served,
      answerOf o = some (id, callAt convert numberText srv s₀ served i request) := by
  induction served generalizing s₀ i with
  | nil => cases hget
  | cons p served ih =>
    simp only [responsesTo]
    cases i with
    | zero =>
      rw [List.getElem?_cons_zero, Option.some.injEq] at hget
      subst hget
      obtain ⟨⟨hsome, hans⟩, -⟩ := JsonRpcServer.jsonRequestReceived_spec convert numberText srv true request s₀
      have hreq : JsonRpcServer.requestIdOf numberText request = id := by simp [JsonRpcServer.requestIdOf, hid]
      rw [hreq] at hsome hans
      obtain ⟨o, ho⟩ := Option.isSome_iff_exists.1 (hsome.2 ⟨by rw [htag]; rfl, hne, rfl⟩)
      exact ⟨o, by simp [ho], hans o ho⟩
    | succ i =>
      obtain ⟨o, ho, ha⟩ := @ih (JsonRpcServer.jsonRequestReceived convert numberText srv true p.2 s₀).1 i hget
      exact ⟨o, List.mem_append_right _ ho, ha⟩

variable {P : JsonObject → Prop}

/-- On streams that come through, what a client receives answers a request it sent. -/
theorem Inv.answer {s₀ : σ} {sys : System κ σ toJson} (hi : Inv fromJson convert numberText srv s₀ [] sys)
    (hc : Codec toJson fromJson P) {k : κ} (hf : (sys.connections k).Faithful P) {o : JsonObject}
    (ho : o ∈ (sys.connections k).down.received fromJson) {id : RequestId} {r : JsonRpcResult}
    (ha : answerOf o = some (id, r)) :
    id ∈ (sys.connections k).client.issued ∧ ∃ (i : Nat) (request : JsonObject), sys.served[i]? = some (k, request) ∧
      JsonRpcClient.idOf request = some id ∧ r = callAt convert numberText srv s₀ sys.served i request := by
  have hk := hi.connections k
  have hsent : o ∈ responsesTo convert numberText srv k s₀ sys.served := by
    rw [← hk.responses, List.mem_filter]
    exact ⟨(hf.2.received_first hc).1.subset ho, by rw [ha]; rfl⟩
  obtain ⟨i, request, hget, hresp⟩ := mem_responsesTo hsent
  obtain ⟨⟨hsome, hans⟩, -⟩ := JsonRpcServer.jsonRequestReceived_spec convert numberText srv true request
    (replay convert numberText srv s₀ (sys.served.take i))
  have heq := hans o hresp
  obtain ⟨-, hne, -⟩ := hsome.1 (by rw [hresp]; rfl)
  rw [ha, Option.some.injEq, Prod.mk.injEq] at heq
  -- the request is one of the client's
  have hmem : request ∈ (sys.connections k).client.sent := by
    rw [← hk.sent]
    apply (hf.1.received_first hc).1.subset
    rw [hk.requests, List.append_nil]
    exact mem_requestsOf.2 (List.mem_of_getElem? hget)
  have hid : JsonRpcClient.idOf request = some id := by
    rcases (hk.records.formed request hmem).2 with hundef | ⟨id', hid'⟩
    · simp [JsonRpcServer.requestIdOf, hundef, InvalidRequestId] at hne
    · have : JsonRpcServer.requestIdOf numberText request = id' := by simp [JsonRpcServer.requestIdOf, hid']
      rw [JsonRpcClient.idOf, hid', heq.1, this]
  refine ⟨?_, i, request, hget, hid, heq.2⟩
  have : id ∈ (sys.connections k).client.sent.filterMap JsonRpcClient.idOf :=
    List.mem_filterMap.2 ⟨request, hmem, hid⟩
  rwa [hk.records.ids, List.mem_reverse] at this

/-- The requests of a client that were taken are the first ones it sent. -/
theorem Inv.requestsOf_first {s₀ : σ} {sys : System κ σ toJson} (hi : Inv fromJson convert numberText srv s₀ [] sys)
    (hc : Codec toJson fromJson P) {k : κ} (hf : (sys.connections k).Faithful P) :
    requestsOf k sys.served <+: (sys.connections k).client.sent := by
  have hrequests := (hi.connections k).requests
  rw [List.append_nil] at hrequests
  rw [← hrequests, ← (hi.connections k).sent]
  exact (hf.1.received_first hc).1

/-- A call that has returned timed out, or returned what its request came to. -/
theorem Inv.returned_call {s₀ : σ} {sys : System κ σ toJson} (hi : Inv fromJson convert numberText srv s₀ [] sys)
    (hc : Codec toJson fromJson P) {k : κ} (hf : (sys.connections k).Faithful P) {p : RequestId × JsonRpcResult}
    (hp : p ∈ (sys.connections k).client.returned) : p.2 = timedOutResult ∨
      ∃ (i : Nat) (request : JsonObject), sys.served[i]? = some (k, request) ∧ JsonRpcClient.idOf request = some p.1 ∧
        p.2 = callAt convert numberText srv s₀ sys.served i request := by
  rcases (hi.connections k).records.returned p hp with ht | hsig
  · exact .inl ht
  · right
    obtain ⟨o, ho, ha⟩ := (hi.connections k).signals p hsig
    exact (hi.answer hc hf ho ha).2

/-- All streams come through. -/
def Faithful (P : JsonObject → Prop) (sys : System κ σ toJson) : Prop := ∀ k, (sys.connections k).Faithful P

/-- **One order explains all that happens.** However the streams are cut and the clients interleave, come and go, the
server has taken the requests in one order in which each client's are the first ones it sent, in order and no id
twice; the services are where that order leads; and each call that has returned either timed out or returned what
its request came to in its place. -/
theorem calls_linear {s₀ : σ} {es : List (Event κ)} {sys : System κ σ toJson}
    (h : Runs.run (step fromJson convert numberText srv) { services := s₀ } es = some sys)
    (hc : Codec toJson fromJson P) (hf : Faithful P sys) :
    sys.services = replay convert numberText srv s₀ sys.served ∧
    ∀ k, requestsOf k sys.served <+: (sys.connections k).client.sent ∧
      ((sys.connections k).client.sent.filterMap JsonRpcClient.idOf).Nodup ∧
      ∀ p ∈ (sys.connections k).client.returned, p.2 = timedOutResult ∨
        ∃ (i : Nat) (request : JsonObject), sys.served[i]? = some (k, request) ∧ JsonRpcClient.idOf request = some p.1 ∧
          p.2 = callAt convert numberText srv s₀ sys.served i request := by
  have hi : Inv fromJson convert numberText srv s₀ [] sys := Runs.run_inv inv_step h (inv_init s₀)
  refine ⟨hi.services, fun k => ⟨hi.requestsOf_first hc (hf k), ?_, fun p hp => hi.returned_call hc (hf k) hp⟩⟩
  rw [(hi.connections k).records.ids]
  exact List.nodup_reverse.2 (hi.connections k).records.nodup

/-- A service that answers each ping with the number of those before it. -/
def pinger : JsonRpcServer Nat where
  services := [⟨"", [⟨"ping", [], fun _ n => some (n + 1, .string s!"{n}")⟩]⟩]
  nsSeparator := ""

/-- The members of two requests, of the responses to them and of two notifications. -/
def pingTraffic : List (List (String × String)) :=
  [[("jsonrpc", "2.0"), ("method", "ping"), ("id", "a")], [("jsonrpc", "2.0"), ("method", "ping"), ("id", "b")],
    [("jsonrpc", "2.0"), ("id", "a"), ("result", "1")], [("jsonrpc", "2.0"), ("id", "b"), ("result", "0")],
    [("jsonrpc", "2.0"), ("method", "news"), ("params", "hello")],
    [("jsonrpc", "2.0"), ("method", "news"), ("params", "bye")]]

theorem codec_pingTraffic : Codec toPlainJson (fromPlainJson pingTraffic) (IsKnown pingTraffic) :=
  codec_of_known (by decide +kernel) (by decide +kernel)

/-- Two clients. The request of the first is cut in two, and the second is served in between. -/
def pingRun : Option (System (Fin 2) Nat toPlainJson) :=
  Runs.run (step (fromPlainJson pingTraffic) (fun _ v => some v) (fun _ _ => "") pinger) { services := 0 }
    [.connect 0, .connect 1, .client 0 (.call "a" "ping" (.list [])), .toServer 0 20,
      .client 1 (.call "b" "ping" (.list [])), .toServer 1 62, .toServer 0 42, .toClient 0 30, .toClient 1 59,
      .client 1 (.returns false), .toClient 0 29, .client 0 (.returns false)]

/-- What the calls of a client have returned. -/
def returnedTo (k : Fin 2) (sys : System (Fin 2) Nat toPlainJson) : List (RequestId × String) :=
  (sys.connections k).client.returned.map fun p => (p.1, p.2.result.toString)

theorem exists_pingRun :
    ∃ sys, pingRun = some sys ∧ Faithful (IsKnown pingTraffic) sys ∧
      (∀ k, (sys.connections k).up.transit = [] ∧ (sys.connections k).down.transit = []) ∧
      sys.served.map Prod.fst = [1, 0] ∧ returnedTo 0 sys = [("a", "1")] ∧ returnedTo 1 sys = [("b", "0")] := by
  have hrun : pingRun.any (fun sys =>
      ((sys.connections 0).cameThrough pingTraffic && (sys.connections 0).up.transit.isEmpty &&
        (sys.connections 0).down.transit.isEmpty) &&
      ((sys.connections 1).cameThrough pingTraffic && (sys.connections 1).up.transit.isEmpty &&
        (sys.connections 1).down.transit.isEmpty) &&
      (sys.served.map Prod.fst = [1, 0] && returnedTo 0 sys = [("a", "1")] && returnedTo 1 sys = [("b", "0")])) =
      true := by
    decide +kernel
  obtain ⟨sys, hsys, hchecks⟩ := (Option.any_eq_true _ _).1 hrun
  simp only [Bool.and_eq_true, List.isEmpty_iff, decide_eq_true_eq] at hchecks
  obtain ⟨⟨⟨⟨hcame₀, hup₀⟩, hdown₀⟩, ⟨hcame₁, hup₁⟩, hdown₁⟩, ⟨hserved, hreturned₀⟩, hreturned₁⟩ := hchecks
  refine ⟨sys, hsys, ?_, Fin.forall_fin_two.2 ⟨⟨hup₀, hdown₀⟩, hup₁, hdown₁⟩, hserved, hreturned₀, hreturned₁⟩
  exact Fin.forall_fin_two.2
    ⟨Connection.faithful_of_cameThrough hcame₀, Connection.faithful_of_cameThrough hcame₁⟩

/-- The second client's ping is served first, and each call returns what its request came to in its place. -/
theorem calls_linear_ping :
    ∃ sys, pingRun = some sys ∧ sys.served.map Prod.fst = [1, 0] ∧ returnedTo 0 sys = [("a", "1")] ∧
      returnedTo 1 sys = [("b", "0")] ∧ ∀ k, ∀ p ∈ (sys.connections k).client.returned, p.2 = timedOutResult ∨
        ∃ (i : Nat) (request : JsonObject), sys.served[i]? = some (k, request) ∧ JsonRpcClient.idOf request = some p.1 ∧
          p.2 = callAt (fun _ v => some v) (fun _ _ => "") pinger 0 sys.served i request := by
  obtain ⟨sys, hrun, hf, -, hserved, hreturned₀, hreturned₁⟩ := exists_pingRun
  obtain ⟨-, hcalls⟩ := calls_linear hrun codec_pingTraffic hf
  exact ⟨sys, hrun, hserved, hreturned₀, hreturned₁, fun k => (hcalls k).2.2⟩

/-! ## Nothing is lost -/

variable (convert numberText srv) in
/-- Taking requests changes neither a client nor what has arrived anywhere. -/
theorem foldl_serve_frame (k : κ) (requests : List JsonObject) (sys : System κ σ toJson) (j : κ) :
    let c := (requests.foldl (serve convert numberText srv k) sys).connections j
    (sys.connections j).Grows c ∧ c.client = (sys.connections j).client ∧ c.state = (sys.connections j).state ∧
      c.down.packets = (sys.connections j).down.packets := by
  induction requests generalizing sys with
  | nil => exact ⟨.of_eq rfl rfl, rfl, rfl, rfl⟩
  | cons request requests ih =>
    obtain ⟨hgrows, hclient, hstate, hpackets⟩ := ih (serve convert numberText srv k sys request)
    rcases serve_connection convert numberText srv k j sys request with ⟨-, hconn⟩ | ⟨r, -, hconn⟩
    · rw [hconn] at hgrows hclient hstate hpackets
      exact ⟨hgrows, hclient, hstate, hpackets⟩
    · rw [hconn] at hgrows hclient hstate hpackets
      exact ⟨(Connection.send_grows r _).trans hgrows, hclient, hstate, hpackets⟩

theorem set_grows {k : κ} {c : Connection toJson} {sys : System κ σ toJson} (hc : (sys.connections k).Grows c) (j : κ) :
    (sys.connections j).Grows ((sys.set k c).connections j) :=
  forall_set (p := fun j c => (sys.connections j).Grows c) hc (fun _ => .of_eq rfl rfl) j

/-- A step only adds to the wires. -/
theorem step_grows {sys sys' : System κ σ toJson} {e : Event κ}
    (h : step fromJson convert numberText srv sys e = some sys') (j : κ) :
    (sys.connections j).Grows (sys'.connections j) := by
  cases step_moves fromJson convert numberText srv h with
  | @state k e state he =>
    have hstate : (sys.connections k).Grows { sys.connections k with state := state } := .of_eq rfl rfl
    exact set_grows hstate j
  | @client k e c hc =>
    obtain ⟨-, -, -, hdown, hpackets, hsent⟩ := Connection.act_spec hc
    refine set_grows ⟨?_, ?_⟩ j
    · rw [hsent, hpackets]
      exact ⟨List.prefix_append _ _, List.prefix_rfl⟩
    · rw [hdown]
      exact ⟨List.prefix_rfl, List.prefix_rfl⟩
  | @toServer k n requests c hc =>
    obtain ⟨-, -, hdown, hsent, -, hpackets⟩ := Connection.read_spec hc
    have hread : (sys.connections k).Grows c := by
      refine ⟨?_, ?_⟩
      · rw [hsent]
        exact ⟨List.prefix_rfl, hpackets⟩
      · rw [hdown]
        exact ⟨List.prefix_rfl, List.prefix_rfl⟩
    exact (set_grows hread j).trans (foldl_serve_frame convert numberText srv k requests (sys.set k c) j).1
  | @toClient k n c hc =>
    obtain ⟨os, -, -, hup, hsent, -, hpackets⟩ := Connection.hear_spec hc
    refine set_grows ⟨?_, ?_⟩ j
    · rw [hup]
      exact ⟨List.prefix_rfl, List.prefix_rfl⟩
    · rw [hsent]
      exact ⟨List.prefix_rfl, hpackets⟩
  | notify key value =>
    unfold notify
    cases serviceNotificationReceived key value with
    | none => exact .of_eq rfl rfl
    | some n =>
      by_cases hc : (sys.connections j).state = .connected
      · simpa [hc] using Connection.send_grows n (sys.connections j)
      · simpa [hc] using Connection.Grows.of_eq rfl rfl

theorem Faithful.before {sys sys' : System κ σ toJson} {e : Event κ}
    (h : step fromJson convert numberText srv sys e = some sys') (hf : Faithful P sys') : Faithful P sys :=
  fun k => (hf k).of_grown (step_grows h k)

/-- What holds of the system while the streams come through. -/
structure LiveInv (fromJson : QByteArray → Document) (convert : String → Json → Option Json)
    (numberText : Int → Nat → String) (srv : JsonRpcServer σ) (s₀ : σ) (sys : System κ σ toJson) : Prop where
  inv : Inv fromJson convert numberText srv s₀ [] sys
  settled : ∀ k, (sys.connections k).Settled fromJson

theorem liveInv_init (s₀ : σ) : LiveInv fromJson convert numberText srv s₀ ({ services := s₀ } : System κ σ toJson) :=
  ⟨inv_init s₀, fun _ _ ho => nomatch ho⟩

theorem liveInv_step {s₀ : σ} {sys sys' : System κ σ toJson} {e : Event κ} (hc : Codec toJson fromJson P)
    (h : step fromJson convert numberText srv sys e = some sys') (hf : Faithful P sys)
    (hi : LiveInv fromJson convert numberText srv s₀ sys) : LiveInv fromJson convert numberText srv s₀ sys' := by
  refine ⟨inv_step h hi.inv, ?_⟩
  cases step_moves fromJson convert numberText srv h with
  | @state k e state he =>
    exact forall_set (p := fun _ c => c.Settled fromJson) ((hi.settled k).of_eq rfl rfl) hi.settled
  | @client k e c hact =>
    refine forall_set (p := fun _ c => c.Settled fromJson) ?_ hi.settled
    refine (hi.settled k).act hact ?_
    intro o ho id r ha
    exact (hi.inv.answer hc (hf k) ho ha).1
  | @toServer k n requests c hread =>
    obtain ⟨-, hclient, hdown, -, -, -⟩ := Connection.read_spec hread
    have hc : c.Settled fromJson := (hi.settled k).of_eq (by rw [hdown]) hclient
    intro j
    obtain ⟨-, hclient', -, hpackets⟩ := foldl_serve_frame convert numberText srv k requests (sys.set k c) j
    have hset : ((sys.set k c).connections j).Settled fromJson :=
      forall_set (p := fun _ c => c.Settled fromJson) hc hi.settled j
    exact hset.of_eq (Wire.received_eq_of_packets hpackets) hclient'
  | @toClient k n c hhear => exact forall_set (p := fun _ c => c.Settled fromJson) ((hi.settled k).hear hhear) hi.settled
  | notify key value =>
    intro j
    unfold notify
    cases serviceNotificationReceived key value with
    | none => exact hi.settled j
    | some n =>
      by_cases hconn : (sys.connections j).state = .connected
      · have hsend : ((sys.connections j).send n).Settled fromJson := (hi.settled j).of_eq rfl rfl
        simpa [hconn] using hsend
      · simpa [hconn] using hi.settled j

/-- Once nothing is under way to the server, it has taken every request of the client. -/
theorem Inv.requestsOf_all {s₀ : σ} {sys : System κ σ toJson} (hi : Inv fromJson convert numberText srv s₀ [] sys)
    (hc : Codec toJson fromJson P) {k : κ} (hf : (sys.connections k).Faithful P)
    (hup : (sys.connections k).up.transit = []) : requestsOf k sys.served = (sys.connections k).client.sent := by
  have hrequests := (hi.connections k).requests
  rw [List.append_nil] at hrequests
  rw [← hrequests, ← (hi.connections k).sent]
  exact (hf.1.received_first hc).2 hup

/-- And once nothing is under way back, each request with an id has its answer. -/
theorem Inv.answered {s₀ : σ} {sys : System κ σ toJson} (hi : Inv fromJson convert numberText srv s₀ [] sys)
    (hc : Codec toJson fromJson P) {k : κ} (hf : (sys.connections k).Faithful P)
    (hup : (sys.connections k).up.transit = []) (hdown : (sys.connections k).down.transit = []) {request : JsonObject}
    (hreq : request ∈ (sys.connections k).client.sent) {id : RequestId} (hid : JsonRpcClient.idOf request = some id) :
    ∃ i, sys.served[i]? = some (k, request) ∧ ∃ o ∈ (sys.connections k).down.received fromJson,
      answerOf o = some (id, callAt convert numberText srv s₀ sys.served i request) := by
  have hk := hi.connections k
  obtain ⟨i, hi'⟩ : ∃ i : Nat, sys.served[i]? = some (k, request) := by
    rw [← hi.requestsOf_all hc hf hup] at hreq
    exact List.mem_iff_getElem?.1 (mem_requestsOf.1 hreq)
  obtain ⟨htag, hform⟩ := hk.records.formed request hreq
  have hget : request.get "id" = .string id := by
    rcases hform with hundef | ⟨id', hid'⟩
    · simp [JsonRpcClient.idOf, hundef] at hid
    · simp only [JsonRpcClient.idOf, hid', Option.some.injEq] at hid
      rw [hid', hid]
  have hne : id ≠ InvalidRequestId := by
    rintro rfl
    apply hk.records.valid
    rw [← List.mem_reverse, ← hk.records.ids]
    exact List.mem_filterMap.2 ⟨request, hreq, hid⟩
  obtain ⟨o, ho, ha⟩ := @exists_response _ _ _ convert numberText srv k s₀ _ _ _ _ hi' htag hget hne
  rw [← hk.responses, ← (hf.2.received_first hc).2 hdown] at ho
  exact ⟨i, hi', o, (List.mem_filter.1 ho).1, ha⟩

end Invariant

end System

/-- What a listening client has heard since `c₁`, when `told` are the notifications since. -/
structure Connection.Heard {toJson : JsonObject → QByteArray} (fromJson : QByteArray → Document)
    (told : List (String × Json)) (c₁ c : Connection toJson) : Prop where
  connected : c.state = .connected
  listens : c.client.allowNotification = true
  told : c.down.sent.filterMap notificationOf = c₁.down.sent.filterMap notificationOf ++ told
  heard : ∃ os, c.down.received fromJson = c₁.down.received fromJson ++ os ∧
    c.client.notifications = c₁.client.notifications ++ os.filterMap notificationOf

namespace Connection.Heard

variable {toJson : JsonObject → QByteArray} {fromJson : QByteArray → Document} {told : List (String × Json)}
  {c₁ c c' : Connection toJson}

theorem act (h : Heard fromJson told c₁ c) {e : JsonRpcClient.Event} (hact : c.act e = some c')
    (he : e ≠ .enableReceiveNotification false) : Heard fromJson told c₁ c' := by
  obtain ⟨hne, hstep, hstate, hdown, -, -⟩ := act_spec hact
  obtain ⟨hnot, hallow⟩ := JsonRpcClient.local_step_notifications hstep hne
  refine ⟨hstate.trans h.connected, hallow he h.listens, ?_, ?_⟩
  · rw [hdown]
    exact h.told
  · rw [hdown, hnot]
    exact h.heard

theorem send (h : Heard fromJson told c₁ c) (o : JsonObject) :
    Heard fromJson (told ++ (notificationOf o).toList) c₁ (c.send o) := by
  refine ⟨h.connected, h.listens, ?_, h.heard⟩
  simp only [Connection.send, Wire.send, List.filterMap_append, h.told, List.append_assoc]
  cases hn : notificationOf o with
  | none => simp [hn]
  | some n => simp [hn]

theorem read (h : Heard fromJson told c₁ c) {n : Nat} {os : List JsonObject}
    (hread : c.read fromJson n = some (os, c')) : Heard fromJson told c₁ c' := by
  obtain ⟨hstate, hclient, hdown, -, -, -⟩ := read_spec hread
  refine ⟨hstate.trans h.connected, ?_, ?_, ?_⟩
  · rw [hclient]
    exact h.listens
  · rw [hdown]
    exact h.told
  · rw [hdown, hclient]
    exact h.heard

theorem hear (h : Heard fromJson told c₁ c) {n : Nat} (hhear : c.hear fromJson n = some c') :
    Heard fromJson told c₁ c' := by
  obtain ⟨os', hstate, hclient, -, hsent, hreceived, -⟩ := hear_spec hhear
  have hears := JsonRpcClient.receiveObjects_hears os' c.client
  rw [← hclient] at hears
  obtain ⟨os, hos, hnot⟩ := h.heard
  refine ⟨hstate.trans h.connected, hears.allowNotification.trans h.listens, ?_, os ++ os', ?_, ?_⟩
  · rw [hsent]
    exact h.told
  · rw [hreceived, hos, List.append_assoc]
  · rw [hears.notifications, if_pos h.listens, hnot, List.filterMap_append, List.append_assoc]

/-- What was under way when the client began to listen apart, it hears the notifications since, in order; and all of
them once nothing is under way. -/
theorem notifications {P : JsonObject → Prop} (h : Heard fromJson told c₁ c) (hc : Codec toJson fromJson P)
    (hf₁ : c₁.Faithful P) (hf : c.Faithful P) (hquiet : c₁.down.transit = []) :
    ∃ heard, c.client.notifications = c₁.client.notifications ++ heard ∧ heard <+: told ∧
      (c.down.transit = [] → heard = told) := by
  obtain ⟨os, hos, hnot⟩ := h.heard
  obtain ⟨hfirst, hall⟩ := hf.2.received_first hc
  have hstart : c₁.down.received fromJson = c₁.down.sent := (hf₁.2.received_first hc).2 hquiet
  rw [hos, hstart] at hfirst hall
  refine ⟨os.filterMap notificationOf, hnot, ?_, ?_⟩
  · have := hfirst.filterMap notificationOf
    rwa [List.filterMap_append, h.told, List.prefix_append_right_inj] at this
  · intro ht
    have := congrArg (List.filterMap notificationOf) (hall ht)
    rwa [List.filterMap_append, h.told, List.append_cancel_left_eq] at this

end Connection.Heard

namespace System

variable {κ σ : Type} [DecidableEq κ] {toJson : JsonObject → QByteArray} {fromJson : QByteArray → Document}
  {convert : String → Json → Option Json} {numberText : Int → Nat → String} {srv : JsonRpcServer σ}
  {P : JsonObject → Prop}

/-- The client of `k` has been told of everything since `sys₁`, and what has arrived of that it has heard. -/
def Hearing (fromJson : QByteArray → Document) (k : κ) (sys₁ sys : System κ σ toJson) : Prop :=
  ∃ told, sys.notified = sys₁.notified ++ told ∧
    Connection.Heard fromJson told (sys₁.connections k) (sys.connections k)

/-- An event that leaves `k` connected and listening. -/
def Event.Keeps (k : κ) (e : Event κ) : Prop :=
  e ≠ .disconnect k ∧ e ≠ .client k (.enableReceiveNotification false)

theorem Hearing.set {k j : κ} {sys₁ sys : System κ σ toJson} {c : Connection toJson}
    (h : Hearing fromJson k sys₁ sys)
    (hc : j = k → ∀ told, Connection.Heard fromJson told (sys₁.connections k) (sys.connections k) →
      Connection.Heard fromJson told (sys₁.connections k) c) : Hearing fromJson k sys₁ (sys.set j c) := by
  obtain ⟨told, hnotified, hheard⟩ := h
  refine ⟨told, hnotified, ?_⟩
  by_cases hj : j = k
  · subst hj
    simpa [System.set] using hc rfl told hheard
  · simpa [System.set, Ne.symm hj] using hheard

theorem Hearing.foldl_serve {k j : κ} {sys₁ sys : System κ σ toJson} (requests : List JsonObject)
    (h : Hearing fromJson k sys₁ sys) :
    Hearing fromJson k sys₁ (requests.foldl (serve convert numberText srv j) sys) := by
  induction requests generalizing sys with
  | nil => exact h
  | cons request requests ih =>
    apply ih
    obtain ⟨told, hnotified, hheard⟩ := h
    refine ⟨told, hnotified, ?_⟩
    rcases serve_connection convert numberText srv j k sys request with ⟨-, hconn⟩ | ⟨r, hr, hconn⟩
    · rw [hconn]
      exact hheard
    · rw [hconn]
      obtain ⟨⟨-, hans⟩, -⟩ :=
        JsonRpcServer.jsonRequestReceived_spec convert numberText srv true request sys.services
      have hsend := hheard.send r
      rw [notificationOf_eq_none (by rw [hans r (Option.ite_none_right_eq_some.1 hr).2]; exact Option.isSome_some)]
        at hsend
      simpa using hsend

theorem hearing_step {k : κ} {sys₁ sys sys' : System κ σ toJson} {e : Event κ}
    (h : step fromJson convert numberText srv sys e = some sys') (he : e.Keeps k)
    (hh : Hearing fromJson k sys₁ sys) : Hearing fromJson k sys₁ sys' := by
  cases step_moves fromJson convert numberText srv h with
  | @state j e state hstate =>
    refine hh.set ?_
    rintro rfl told hheard
    rcases hstate with ⟨-, rfl⟩ | hd
    · exact ⟨rfl, hheard.listens, hheard.told, hheard.heard⟩
    · exact absurd hd he.1
  | @client j e c hact =>
    refine hh.set ?_
    rintro rfl told hheard
    refine hheard.act hact ?_
    rintro rfl
    exact he.2 rfl
  | @toServer j n requests c hread =>
    refine Hearing.foldl_serve requests (hh.set ?_)
    rintro rfl told hheard
    exact hheard.read hread
  | @toClient j n c hhear =>
    refine hh.set ?_
    rintro rfl told hheard
    exact hheard.hear hhear
  | notify key value =>
    unfold notify
    cases hn : serviceNotificationReceived key value with
    | none => exact hh
    | some n =>
      obtain ⟨told, hnotified, hheard⟩ := hh
      refine ⟨told ++ [(key, n.get "params")], ?_, ?_⟩
      · simp [hnotified]
      · have hsend := hheard.send n
        rw [(notificationOf_sent hn).1] at hsend
        simpa [hheard.connected] using hsend

/-- **Every notification reaches a listening client once and in order.** A client that is connected, listens and has
nothing under way to it hears, for as long as it stays connected and goes on listening, the notifications from then
on in their order, whatever calls are made meanwhile and however the streams are cut; and all of them once nothing
is under way again. -/
theorem notifications_delivered {sys₁ sys : System κ σ toJson} {es : List (Event κ)} {k : κ}
    (h : Runs.run (step fromJson convert numberText srv) sys₁ es = some sys) (hc : Codec toJson fromJson P)
    (hf : Faithful P sys) (hconn : (sys₁.connections k).state = .connected)
    (hlisten : (sys₁.connections k).client.allowNotification = true)
    (hquiet : (sys₁.connections k).down.transit = []) (hkeep : ∀ e ∈ es, e.Keeps k) :
    ∃ told heard, sys.notified = sys₁.notified ++ told ∧
      (sys.connections k).client.notifications = (sys₁.connections k).client.notifications ++ heard ∧
      heard <+: told ∧ ((sys.connections k).down.transit = [] → heard = told) := by
  have hstart : Hearing fromJson k sys₁ sys₁ := by
    refine ⟨[], (List.append_nil _).symm, hconn, hlisten, (List.append_nil _).symm, [], (List.append_nil _).symm, ?_⟩
    exact (List.append_nil _).symm
  have hf₁ : Faithful P sys₁ := Runs.allStates_head (Runs.allStates_of_run Faithful.before h hf)
  obtain ⟨told, hnotified, hheard⟩ : Hearing fromJson k sys₁ sys := Runs.run_inv_of_forall hearing_step h hkeep hstart
  obtain ⟨heard, hnot, hfirst, hall⟩ := hheard.notifications hc (hf₁ k) (hf k) hquiet
  exact ⟨told, heard, hnotified, hnot, hfirst, hall⟩

/-- Two clients that listen. -/
def listening : System (Fin 2) Nat toPlainJson where
  connections := fun _ => { state := .connected, client := { allowNotification := true } }
  services := 0

/-- Two notifications, with a call of the second client and a cut between them. -/
def newsRun : Option (System (Fin 2) Nat toPlainJson) :=
  Runs.run (step (fromPlainJson pingTraffic) (fun _ v => some v) (fun _ _ => "") pinger) listening
    [.notify "news" (.string "hello"), .client 1 (.call "b" "ping" (.list [])), .toClient 1 26, .toServer 1 62,
      .toClient 0 70, .notify "news" (.string "bye"), .toClient 1 60, .toClient 1 111, .client 1 (.returns false),
      .toClient 0 68]

/-- The second client hears both, its own answer between them. -/
theorem notifications_delivered_news :
    ∃ sys, newsRun = some sys ∧ returnedTo 1 sys = [("b", "0")] ∧ sys.notified.length = 2 ∧
      (sys.connections 1).client.notifications = sys.notified := by
  have hrun : newsRun.any (fun sys =>
      (sys.connections 0).cameThrough pingTraffic && (sys.connections 1).cameThrough pingTraffic &&
        (sys.connections 1).down.transit.isEmpty && returnedTo 1 sys = [("b", "0")] && sys.notified.length = 2) =
      true := by
    decide +kernel
  obtain ⟨sys, hsys, hchecks⟩ := (Option.any_eq_true _ _).1 hrun
  simp only [Bool.and_eq_true, List.isEmpty_iff, decide_eq_true_eq] at hchecks
  obtain ⟨⟨⟨⟨hcame₀, hcame₁⟩, hquiet⟩, hreturned⟩, hlength⟩ := hchecks
  have hf : Faithful (IsKnown pingTraffic) sys := Fin.forall_fin_two.2
    ⟨Connection.faithful_of_cameThrough hcame₀, Connection.faithful_of_cameThrough hcame₁⟩
  obtain ⟨told, heard, hnotified, hheard, -, hall⟩ := @notifications_delivered _ _ _ _ _ _ _ _ _ _ _ _ 1
    hsys codec_pingTraffic hf rfl rfl rfl (by simp [Event.Keeps])
  refine ⟨sys, hsys, hreturned, hlength, ?_⟩
  rw [hheard, hnotified, hall hquiet]
  rfl

end System

end SegsLauncher
