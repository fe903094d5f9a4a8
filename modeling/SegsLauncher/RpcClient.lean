import Mathlib.Data.List.AList
import SegsLauncher.Qt
import SegsLauncher.Lib.Runs
/-!
# The RPC client (json_rpc_client.cpp)

A call registers a fresh request id, sends the request and runs the thread's pending events until the
request is answered or the time is up. Another call can begin inside that wait, so the calls in progress
form a stack; and an answer can come late, twice, or for nobody.

| here | there |
| --- | --- |
| `JsonRpcResult`                   | `JsonRpcSuccess`, `JsonRpcError` |
| `Caller`                          | whose handlers a request's signals are connected to |
| `JsonRpcClient.jsonResponseReceived` | `json_rpc_client.cpp:274` |
| `JsonRpcClient.doCall`            | `prepareCall` (`:178`) and the rest of `doCallExpandArgs`, `doCallNamedParams` and `doCall` |
| `Event.call`, `Event.returns`     | the two ends of a `call`: `waitForSyncCallbacks` (`:54`) between them |
| `answerOf`                        | not in the source: the request an object answers, and with what |

A `QVariant` made by `toVariant` is modelled by the JSON value it was made from. `issued`, `sent`,
`signals`, `notifications` and `returned` are not in the source: they record the ids given out, what was
sent, the signals emitted and what the calls returned.
-/
namespace SegsLauncher

/-! ## JSON values -/

namespace Json

def isUndefined : Json → Bool
  | .undefined => true
  | _ => false

def isObject : Json → Bool
  | .object _ => true
  | _ => false

/-- `toString(defaultValue)`. -/
def toStringOr (defaultValue : String) : Json → String
  | .string s => s
  | _ => defaultValue

/-- `toInt()`: 0 unless the number, `mantissa` tenfold divided `exponent` times, is a 32-bit `int`. -/
def toInt : Json → Int
  | .double mantissa exponent =>
    let n := mantissa / 10 ^ exponent
    if n * 10 ^ exponent = mantissa ∧ -2 ^ 31 ≤ n ∧ n < 2 ^ 31 then n else 0
  | _ => 0

end Json

/-! ## Requests and results -/

abbrev RequestId := String

def InvalidRequestId : RequestId := ""

/-- `QMap<RequestId, α>`. -/
abbrev QMap (α : Type) := AList fun _ : RequestId => α

inductive JsonRpcResult where
  | success (result : Json)
  | error (code : Int) (message : String) (data : Json)

def JsonRpcResult.isSuccess : JsonRpcResult → Bool
  | .success _ => true
  | .error .. => false

def JsonRpcResult.result : JsonRpcResult → Json
  | .success result => result
  | .error .. => .undefined

def EC_InternalError : Int := -32603

/-- What a call returns when its wait ends without an answer. -/
def timedOutResult : JsonRpcResult := .error EC_InternalError "RPC call timed out" .undefined

inductive Caller where
  /-- The handlers of `waitForSyncCallbacks`. -/
  | waitForSyncCallbacks
  /-- Whoever called `callAsync`. -/
  | callAsync
deriving DecidableEq

inductive Args where
  | list (args : List Json)
  | named (args : List (String × Json))

/-- The `params` of a request: none for no arguments. -/
def Args.params : Args → List (String × Json)
  | .list args => if args.isEmpty then [] else [("params", .array args)]
  | .named args => if args.isEmpty then [] else [("params", .object args)]

def createRequestJsonObject (method : String) (id : RequestId) : JsonObject :=
  [("jsonrpc", .string "2.0"), ("method", .string method), ("id", .string id)]

def createNotificationJsonObject (method : String) : JsonObject :=
  [("jsonrpc", .string "2.0"), ("method", .string method)]

def getJsonErrorInfo (response : JsonObject) : Int × String × Json :=
  let error := (response.get "error").toObject
  let code := (JsonObject.get error "code").toInt
  let message := (JsonObject.get error "message").toStringOr "unknown error"
  let data := JsonObject.get error "data"
  (code, message, data)

structure JsonRpcClient where
  outstandingRequests : QMap Caller := ∅
  outstandingRequestCount : Int := 0
  results : QMap JsonRpcResult := ∅
  allowNotification : Bool := false
  /-- The calls that wait, innermost first. -/
  waiting : List RequestId := []
  issued : List RequestId := []
  sent : List JsonObject := []
  signals : List (RequestId × JsonRpcResult) := []
  notifications : List (String × Json) := []
  returned : List (RequestId × JsonRpcResult) := []

namespace JsonRpcClient

/-- Registers the request and sends it; `id` is what `createUuid` made. -/
def doCall (caller : Caller) (id : RequestId) (method : String) (args : Args) (c : JsonRpcClient) : JsonRpcClient :=
  { c with
    issued := id :: c.issued
    outstandingRequests := c.outstandingRequests.insert id caller
    outstandingRequestCount := c.outstandingRequestCount + 1
    sent := c.sent ++ [createRequestJsonObject method id ++ args.params] }

/-- `emit it.value()->result(..)` or `->error(..)`, with what the handlers of a synchronous call do. -/
def emitSignal (id : RequestId) (caller : Caller) (r : JsonRpcResult) (c : JsonRpcClient) : JsonRpcClient :=
  { c with
    signals := c.signals ++ [(id, r)]
    results := if caller = .waitForSyncCallbacks then c.results.insert id r else c.results }

/-- `m_outstanding_requests.erase(it); --m_outstanding_request_count;` -/
def erase (id : RequestId) (c : JsonRpcClient) : JsonRpcClient :=
  { c with
    outstandingRequests := c.outstandingRequests.erase id
    outstandingRequestCount := c.outstandingRequestCount - 1 }

def jsonResponseReceived (response : JsonObject) (c : JsonRpcClient) : JsonRpcClient :=
  if (response.get "jsonrpc").toString ≠ "2.0" then c
  else if (response.get "error").isObject then
    let (code, msg, data) := getJsonErrorInfo response
    let id := (response.get "id").toStringOr InvalidRequestId
    if id ≠ InvalidRequestId then
      match c.outstandingRequests.lookup id with
      | none => c
      | some it => (c.emitSignal id it (.error code msg data)).erase id
    else c
  else if c.allowNotification && !response.contains "id" then
    if (response.get "method").isUndefined || (response.get "params").isUndefined then c
    else
      let key := (response.get "method").toString
      let value := response.get "params"
      { c with notifications := c.notifications ++ [(key, value)] }
  else if (response.get "result").isUndefined then c
  else
    let id := (response.get "id").toStringOr InvalidRequestId
    if id = InvalidRequestId then c
    else
      let result := response.get "result"
      match c.outstandingRequests.lookup id with
      | none => c
      | some it => (c.emitSignal id it (.success result)).erase id

/-- The end of `waitForSyncCallbacks`. -/
def takeResult (id : RequestId) (c : JsonRpcClient) : JsonRpcResult × JsonRpcClient :=
  match c.results.lookup id with
  | some res => (res, { c with results := c.results.erase id })
  | none => (timedOutResult, c)

inductive Event where
  | call (id : RequestId) (method : String) (args : Args)
  | callAsync (id : RequestId) (method : String) (args : Args)
  | notification (method : String) (args : Args)
  | enableReceiveNotification (enabled : Bool)
  /-- The endpoint emits `jsonObjectReceived`. -/
  | received (response : JsonObject)
  /-- The innermost wait looks at its condition, `timedOut` being whether the time is up, and ends. -/
  | returns (timedOut : Bool)

/-- `createUuid` gives out no id twice. -/
def Fresh (id : RequestId) (c : JsonRpcClient) : Prop := id ≠ InvalidRequestId ∧ id ∉ c.issued

instance (id : RequestId) (c : JsonRpcClient) : Decidable (c.Fresh id) := by
  unfold Fresh
  infer_instance

def step (c : JsonRpcClient) : Event → Option JsonRpcClient
  | .call id method args =>
    if c.Fresh id then
      let c := c.doCall .waitForSyncCallbacks id method args
      some { c with waiting := id :: c.waiting }
    else none
  | .callAsync id method args => if c.Fresh id then some (c.doCall .callAsync id method args) else none
  | .notification method args => some { c with sent := c.sent ++ [createNotificationJsonObject method ++ args.params] }
  | .enableReceiveNotification enabled => some { c with allowNotification := enabled }
  | .received response => some (c.jsonResponseReceived response)
  | .returns timedOut =>
    match c.waiting with
    | [] => none
    | id :: waiting =>
      if id ∉ c.outstandingRequests ∨ timedOut then
        let (result, c) := c.takeResult id
        some { c with waiting := waiting, returned := c.returned ++ [(id, result)] }
      else none

end JsonRpcClient

/-! ## What an object answers -/

/-- The request an object answers, and with what. -/
def answerOf (response : JsonObject) : Option (RequestId × JsonRpcResult) :=
  let id := (response.get "id").toStringOr InvalidRequestId
  if (response.get "jsonrpc").toString ≠ "2.0" ∨ id = InvalidRequestId then none
  else if (response.get "error").isObject then
    let (code, msg, data) := getJsonErrorInfo response
    some (id, .error code msg data)
  else if (response.get "result").isUndefined then none
  else some (id, .success (response.get "result"))

theorem contains_of_id {response : JsonObject} (h : (response.get "id").toStringOr InvalidRequestId ≠ InvalidRequestId) :
    response.contains "id" = true := by
  by_contra hc
  have hnone : response.lookup "id" = none := Option.not_isSome_iff_eq_none.1 hc
  simp [JsonObject.get, hnone, Json.toStringOr] at h

namespace JsonRpcClient

/-- The client's books once the request has its answer. -/
def settle (id : RequestId) (r : JsonRpcResult) (c : JsonRpcClient) : JsonRpcClient :=
  match c.outstandingRequests.lookup id with
  | none => c
  | some it => (c.emitSignal id it r).erase id

/-- **An object settles the request it answers, if that is outstanding, and nothing else.** -/
theorem jsonResponseReceived_eq (response : JsonObject) (c : JsonRpcClient) :
    c.jsonResponseReceived response = match answerOf response with
      | some (id, r) => c.settle id r
      | none => { c with notifications := (c.jsonResponseReceived response).notifications } := by
  by_cases htag : (response.get "jsonrpc").toString = "2.0"
  · by_cases hid : (response.get "id").toStringOr InvalidRequestId = InvalidRequestId
    · have hnone : answerOf response = none := by simp [answerOf, hid]
      rw [hnone]
      simp only [jsonResponseReceived, htag, hid, ne_eq, not_true_eq_false, if_false, if_true]
      split
      · rfl
      · split
        · split
          · rfl
          · rfl
        · split
          · rfl
          · rfl
    · have hcontains := contains_of_id hid
      by_cases herr : (response.get "error").isObject = true
      · simp [answerOf, jsonResponseReceived, settle, htag, hid, herr]
      · by_cases hres : (response.get "result").isUndefined = true
        · simp [answerOf, jsonResponseReceived, htag, hid, herr, hres, hcontains]
        · simp [answerOf, jsonResponseReceived, settle, htag, hid, herr, hres, hcontains]
  · simp [answerOf, jsonResponseReceived, htag]

end JsonRpcClient

/-- What a client that receives notifications is told. -/
def notificationOf (response : JsonObject) : Option (String × Json) :=
  if (response.get "jsonrpc").toString ≠ "2.0" ∨ (response.get "error").isObject ∨ response.contains "id" then none
  else if (response.get "method").isUndefined || (response.get "params").isUndefined then none
  else some ((response.get "method").toString, response.get "params")

theorem notificationOf_eq_none {response : JsonObject} (h : (answerOf response).isSome) :
    notificationOf response = none := by
  have hid : (response.get "id").toStringOr InvalidRequestId ≠ InvalidRequestId := by
    intro hid
    simp [answerOf, hid] at h
  simp [notificationOf, contains_of_id hid]

namespace JsonRpcClient

theorem jsonResponseReceived_notifications (response : JsonObject) (c : JsonRpcClient) :
    (c.jsonResponseReceived response).allowNotification = c.allowNotification ∧
    (c.jsonResponseReceived response).notifications =
      c.notifications ++ if c.allowNotification then (notificationOf response).toList else [] := by
  have hsettle : ∀ id r, (c.settle id r).allowNotification = c.allowNotification ∧
      (c.settle id r).notifications = c.notifications := by
    intro id r
    unfold settle
    split
    · exact ⟨rfl, rfl⟩
    · exact ⟨rfl, rfl⟩
  cases ha : answerOf response with
  | some a =>
    have hnone : notificationOf response = none := notificationOf_eq_none (by rw [ha]; rfl)
    rw [jsonResponseReceived_eq, ha]
    simpa [hnone] using hsettle a.1 a.2
  | none =>
    refine ⟨by rw [jsonResponseReceived_eq, ha], ?_⟩
    by_cases htag : (response.get "jsonrpc").toString = "2.0"
    · by_cases herr : (response.get "error").isObject = true
      · have hid : (response.get "id").toStringOr InvalidRequestId = InvalidRequestId := by
          by_contra hid
          simp [answerOf, htag, hid, herr] at ha
        simp [jsonResponseReceived, notificationOf, htag, herr, hid]
      · by_cases hn : c.allowNotification = true ∧ response.contains "id" = false
        · by_cases hu : (response.get "method").isUndefined = true ∨ (response.get "params").isUndefined = true
          · simp [jsonResponseReceived, notificationOf, htag, herr, hn, hu]
          · simp [jsonResponseReceived, notificationOf, htag, herr, hn, hu]
        · have hnot : (if c.allowNotification then (notificationOf response).toList else []) = [] := by
            rw [not_and, Bool.not_eq_false] at hn
            by_cases hallow : c.allowNotification = true
            · simp [hallow, notificationOf, hn hallow]
            · simp [hallow]
          have hguard : (c.allowNotification && !response.contains "id") = false := by
            simpa using hn
          rw [hnot, List.append_nil]
          simp only [jsonResponseReceived, htag, herr, hguard, ne_eq, not_true_eq_false, if_false, Bool.false_eq_true]
          split
          · rfl
          · split
            · rfl
            · split
              · rfl
              · rfl
    · simp [jsonResponseReceived, notificationOf, htag]

/-! ## One answer -/

section Settle
variable (id : RequestId) (r : JsonRpcResult) (c : JsonRpcClient)

@[simp] theorem settle_issued : (c.settle id r).issued = c.issued := by
  unfold settle
  split <;> rfl

@[simp] theorem settle_waiting : (c.settle id r).waiting = c.waiting := by
  unfold settle
  split <;> rfl

@[simp] theorem settle_returned : (c.settle id r).returned = c.returned := by
  unfold settle
  split <;> rfl

/-- The request is outstanding no longer. -/
theorem settle_outstanding (i : RequestId) :
    (c.settle id r).outstandingRequests.lookup i = if i = id then none else c.outstandingRequests.lookup i := by
  unfold settle
  split
  · rename_i hnone
    by_cases hi : i = id
    · rw [if_pos hi, hi, hnone]
    · rw [if_neg hi]
  · by_cases hi : i = id
    · subst hi
      simp [emitSignal, erase]
    · simp [emitSignal, erase, hi, AList.lookup_erase_ne]

theorem settle_signals :
    (c.settle id r).signals = c.signals ++ if c.outstandingRequests.lookup id = none then [] else [(id, r)] := by
  unfold settle
  split
  · rename_i hnone
    simp [hnone]
  · rename_i hsome
    simp [emitSignal, erase, hsome]

theorem settle_results (i : RequestId) :
    (c.settle id r).results.lookup i =
      if i = id ∧ c.outstandingRequests.lookup id = some .waitForSyncCallbacks then some r else c.results.lookup i := by
  unfold settle
  split
  · rename_i hnone
    simp [hnone]
  · rename_i it hsome
    rw [hsome]
    cases it with
    | callAsync => simp [emitSignal, erase]
    | waitForSyncCallbacks =>
      by_cases hi : i = id
      · subst hi
        simp [emitSignal, erase]
      · simp [emitSignal, erase, hi, AList.lookup_insert_ne]

end Settle

theorem takeResult_eq (id : RequestId) (c : JsonRpcClient) :
    c.takeResult id = ((c.results.lookup id).getD timedOutResult, { c with results := c.results.erase id }) := by
  unfold takeResult
  cases h : c.results.lookup id with
  | some res => rfl
  | none =>
    have herase : c.results.erase id = c.results :=
      AList.ext (List.kerase_of_notMem_keys (AList.lookup_eq_none.1 h))
    simp [herase]

/-- What the end of a wait does. -/
theorem returns_spec {c c' : JsonRpcClient} {timedOut : Bool} (h : c.step (.returns timedOut) = some c') :
    ∃ id waiting, c.waiting = id :: waiting ∧ (id ∉ c.outstandingRequests ∨ timedOut = true) ∧
      c' = { c with
        results := c.results.erase id
        waiting := waiting
        returned := c.returned ++ [(id, (c.results.lookup id).getD timedOutResult)] } := by
  simp only [step] at h
  cases hw : c.waiting with
  | nil => simp [hw] at h
  | cons id waiting =>
    simp only [hw, takeResult_eq, Option.ite_none_right_eq_some, Option.some.injEq] at h
    exact ⟨id, waiting, rfl, h.1, h.2.symm⟩

/-- The answer the event brings the request. -/
def Event.answers (id : RequestId) : Event → Option JsonRpcResult
  | .received response => (answerOf response).bind fun a => if a.1 = id then some a.2 else none
  | _ => none

/-- The first answer the request gets. -/
def firstAnswer (id : RequestId) (es : List Event) : Option JsonRpcResult := es.findSome? (Event.answers id)

theorem firstAnswer_snoc (id : RequestId) (es : List Event) (e : Event) :
    firstAnswer id (es ++ [e]) = (firstAnswer id es).or (e.answers id) := by
  simp [firstAnswer, List.findSome?_append]

theorem firstAnswer_returns (id : RequestId) (mid : List Event) (timedOut : Bool) (post : List Event) :
    firstAnswer id (mid ++ .returns timedOut :: post) = (firstAnswer id mid).or (firstAnswer id post) := by
  rw [firstAnswer, List.findSome?_append]
  rfl

/-! ## One request through a run -/

/-- Only ids that were given out are on the books, and the counter counts. -/
structure Inv (c : JsonRpcClient) : Prop where
  outstanding : ∀ id ∈ c.outstandingRequests, id ∈ c.issued
  results : ∀ id ∈ c.results, id ∈ c.issued
  signals : ∀ p ∈ c.signals, p.1 ∈ c.issued
  returned : ∀ p ∈ c.returned, p.1 ∈ c.issued
  waiting : ∀ id ∈ c.waiting, id ∈ c.issued
  nodup : c.waiting.Nodup
  count : c.outstandingRequestCount = c.outstandingRequests.keys.length

theorem inv_init : Inv {} := by
  refine ⟨?_, ?_, ?_, ?_, ?_, ?_, ?_⟩ <;> simp

theorem inv_doCall {c : JsonRpcClient} (h : Inv c) {id : RequestId} (hid : c.Fresh id) (caller : Caller)
    (method : String) (args : Args) : Inv (c.doCall caller id method args) := by
  have hnew : id ∉ c.outstandingRequests := fun hm => hid.2 (h.outstanding id hm)
  refine ⟨?_, ?_, ?_, ?_, ?_, h.nodup, ?_⟩
  · intro i hi
    rcases (AList.mem_insert _).1 hi with rfl | hi
    · exact List.mem_cons_self
    · exact List.mem_cons_of_mem _ (h.outstanding i hi)
  · exact fun i hi => List.mem_cons_of_mem _ (h.results i hi)
  · exact fun p hp => List.mem_cons_of_mem _ (h.signals p hp)
  · exact fun p hp => List.mem_cons_of_mem _ (h.returned p hp)
  · exact fun i hi => List.mem_cons_of_mem _ (h.waiting i hi)
  · have hkeys : id ∉ c.outstandingRequests.keys := hnew
    simp only [doCall, AList.keys_insert, List.length_cons, List.erase_of_not_mem hkeys, h.count]
    omega

theorem inv_settle {c : JsonRpcClient} (h : Inv c) (id : RequestId) (r : JsonRpcResult) : Inv (c.settle id r) := by
  by_cases hout : c.outstandingRequests.lookup id = none
  · have : c.settle id r = c := by simp [settle, hout]
    rwa [this]
  · have hmem : id ∈ c.outstandingRequests := by
      rw [← AList.lookup_isSome]
      exact Option.isSome_iff_ne_none.2 hout
    have hiss := h.outstanding id hmem
    refine ⟨?_, ?_, ?_, ?_, ?_, ?_, ?_⟩
    · intro i hi
      rw [settle_issued]
      apply h.outstanding
      rw [← AList.lookup_isSome, settle_outstanding] at hi
      by_cases hid : i = id
      · simp [hid] at hi
      · rw [if_neg hid] at hi
        exact AList.lookup_isSome.1 hi
    · intro i hi
      rw [settle_issued]
      rw [← AList.lookup_isSome, settle_results] at hi
      by_cases hid : i = id
      · exact hid ▸ hiss
      · simp only [hid, false_and, if_false] at hi
        exact h.results i (AList.lookup_isSome.1 hi)
    · intro p hp
      rw [settle_signals, if_neg hout] at hp
      rw [settle_issued]
      rcases List.mem_append.1 hp with hp | hp
      · exact h.signals p hp
      · rw [List.mem_singleton.1 hp]
        exact hiss
    · simpa using h.returned
    · simpa using h.waiting
    · simpa using h.nodup
    · obtain ⟨it, hit⟩ := Option.ne_none_iff_exists'.1 hout
      have hkeys : id ∈ c.outstandingRequests.keys := hmem
      have hpos := List.length_pos_of_mem hkeys
      simp only [settle, hit, emitSignal, erase, AList.keys_erase, List.length_erase_of_mem hkeys, h.count]
      omega

theorem inv_step {c c' : JsonRpcClient} {e : Event} (h : c.step e = some c') (hi : Inv c) : Inv c' := by
  cases e with
  | call id method args =>
    simp only [step, Option.ite_none_right_eq_some, Option.some.injEq] at h
    obtain ⟨hid, rfl⟩ := h
    have hd := inv_doCall hi hid .waitForSyncCallbacks method args
    refine ⟨hd.outstanding, hd.results, hd.signals, hd.returned, ?_, ?_, hd.count⟩
    · intro i hmem
      rcases List.mem_cons.1 hmem with rfl | hmem
      · exact List.mem_cons_self
      · exact hd.waiting i hmem
    · exact List.nodup_cons.2 ⟨fun hmem => hid.2 (hi.waiting id hmem), hi.nodup⟩
  | callAsync id method args =>
    simp only [step, Option.ite_none_right_eq_some, Option.some.injEq] at h
    obtain ⟨hid, rfl⟩ := h
    exact inv_doCall hi hid .callAsync method args
  | notification method args =>
    obtain rfl := Option.some.inj h
    exact ⟨hi.outstanding, hi.results, hi.signals, hi.returned, hi.waiting, hi.nodup, hi.count⟩
  | enableReceiveNotification enabled =>
    obtain rfl := Option.some.inj h
    exact ⟨hi.outstanding, hi.results, hi.signals, hi.returned, hi.waiting, hi.nodup, hi.count⟩
  | received response =>
    obtain rfl := Option.some.inj h
    rw [jsonResponseReceived_eq]
    cases answerOf response with
    | none => exact ⟨hi.outstanding, hi.results, hi.signals, hi.returned, hi.waiting, hi.nodup, hi.count⟩
    | some a => exact inv_settle hi a.1 a.2
  | returns timedOut =>
    obtain ⟨id, waiting, hw, -, rfl⟩ := returns_spec h
    have hiss : id ∈ c.issued := hi.waiting id (by simp [hw])
    have hnd := hi.nodup
    rw [hw] at hnd
    refine ⟨hi.outstanding, ?_, hi.signals, ?_, ?_, hnd.of_cons, hi.count⟩
    · exact fun i hmem => hi.results i (AList.mem_erase.1 hmem).2
    · intro p hp
      rcases List.mem_append.1 hp with hp | hp
      · exact hi.returned p hp
      · rw [List.mem_singleton.1 hp]
        exact hiss
    · exact fun i hmem => hi.waiting i (by simp [hw, hmem])

/-- How the books stand on a request after the events since it was sent. -/
structure Books (id : RequestId) (caller : Caller) (es : List Event) (c : JsonRpcClient) : Prop where
  issued : id ∈ c.issued
  outstanding : c.outstandingRequests.lookup id = if firstAnswer id es = none then some caller else none
  signals : c.signals.filter (fun p => p.1 = id) = (firstAnswer id es).toList.map fun r => (id, r)

/-- How a synchronous call stands that was made in `c₀`, after the events since: it waits; or its wait, the
innermost one then, has ended at the last of the events `mid ++ [.returns timedOut]`. -/
inductive Standing (c₀ : JsonRpcClient) (id : RequestId) (es : List Event) (c : JsonRpcClient) : Prop
  | waits (hw : id ∈ c.waiting) (hret : c.returned.filter (fun p => p.1 = id) = [])
      (hres : c.results.lookup id = firstAnswer id es)
  | returned (mid : List Event) (timedOut : Bool) (post : List Event) (c₁ : JsonRpcClient)
      (hes : es = mid ++ .returns timedOut :: post) (hmid : Runs.run step c₀ mid = some c₁)
      (htop : c₁.waiting.head? = some id) (ht : timedOut = true ∨ firstAnswer id mid ≠ none) (hw : id ∉ c.waiting)
      (hret : c.returned.filter (fun p => p.1 = id) = [(id, (firstAnswer id mid).getD timedOutResult)])
      (hres : c.results.lookup id = if firstAnswer id mid = none then firstAnswer id post else none)

section Steps
variable {id : RequestId} {caller : Caller} {es : List Event} {c₀ c c' : JsonRpcClient} {e : Event}

/-- A fresh request is not on the books. -/
theorem Inv.fresh (hi : Inv c) (hid : c.Fresh id) :
    c.outstandingRequests.lookup id = none ∧ c.results.lookup id = none ∧
      c.signals.filter (fun p => p.1 = id) = [] ∧ c.returned.filter (fun p => p.1 = id) = [] := by
  refine ⟨?_, ?_, ?_, ?_⟩
  · exact AList.lookup_eq_none.2 fun h => hid.2 (hi.outstanding id h)
  · exact AList.lookup_eq_none.2 fun h => hid.2 (hi.results id h)
  · simp only [List.filter_eq_nil_iff, decide_eq_true_eq]
    rintro p hp rfl
    exact hid.2 (hi.signals p hp)
  · simp only [List.filter_eq_nil_iff, decide_eq_true_eq]
    rintro p hp rfl
    exact hid.2 (hi.returned p hp)

theorem books_doCall (caller : Caller) (hi : Inv c) (hid : c.Fresh id) (method : String) (args : Args) :
    Books id caller [] (c.doCall caller id method args) := by
  obtain ⟨-, -, hsig, -⟩ := hi.fresh hid
  refine ⟨List.mem_cons_self, ?_, hsig⟩
  simp [doCall, firstAnswer]

theorem ne_of_issued {i : RequestId} (h : id ∈ c.issued) (hf : c.Fresh i) : i ≠ id := by
  rintro rfl
  exact hf.2 h

/-- **One event: the first answer settles a request, and nothing else moves its books.** -/
theorem books_step (h : c.step e = some c') (hb : Books id caller es c) : Books id caller (es ++ [e]) c' := by
  have hno : e.answers id = none → firstAnswer id (es ++ [e]) = firstAnswer id es := by
    intro hnone
    rw [firstAnswer_snoc, hnone, Option.or_none]
  cases e with
  | call i method args =>
    simp only [step, Option.ite_none_right_eq_some, Option.some.injEq] at h
    obtain ⟨hf, rfl⟩ := h
    have hne := ne_of_issued hb.issued hf
    refine ⟨List.mem_cons_of_mem _ hb.issued, ?_, ?_⟩
    · rw [hno rfl, ← hb.outstanding]
      exact AList.lookup_insert_ne hne.symm
    · rw [hno rfl, ← hb.signals]
      rfl
  | callAsync i method args =>
    simp only [step, Option.ite_none_right_eq_some, Option.some.injEq] at h
    obtain ⟨hf, rfl⟩ := h
    have hne := ne_of_issued hb.issued hf
    refine ⟨List.mem_cons_of_mem _ hb.issued, ?_, ?_⟩
    · rw [hno rfl, ← hb.outstanding]
      exact AList.lookup_insert_ne hne.symm
    · rw [hno rfl, ← hb.signals]
      rfl
  | notification method args =>
    obtain rfl := Option.some.inj h
    exact ⟨hb.issued, by rw [hno rfl, ← hb.outstanding], by rw [hno rfl, ← hb.signals]⟩
  | enableReceiveNotification enabled =>
    obtain rfl := Option.some.inj h
    exact ⟨hb.issued, by rw [hno rfl, ← hb.outstanding], by rw [hno rfl, ← hb.signals]⟩
  | returns timedOut =>
    obtain ⟨i, waiting, -, -, rfl⟩ := returns_spec h
    exact ⟨hb.issued, by rw [hno rfl, ← hb.outstanding], by rw [hno rfl, ← hb.signals]⟩
  | received response =>
    obtain rfl := Option.some.inj h
    rw [jsonResponseReceived_eq]
    cases ha : answerOf response with
    | none =>
      have hnone : (Event.received response).answers id = none := by simp [Event.answers, ha]
      exact ⟨hb.issued, by rw [hno hnone, ← hb.outstanding], by rw [hno hnone, ← hb.signals]⟩
    | some a =>
      obtain ⟨i, r⟩ := a
      have hans : (Event.received response).answers id = if i = id then some r else none := by
        simp [Event.answers, ha]
      refine ⟨by simpa using hb.issued, ?_, ?_⟩
      · simp only [settle_outstanding, hb.outstanding, firstAnswer_snoc, hans]
        by_cases hi : i = id
        · simp [hi]
        · simp [Ne.symm hi, hi]
      · simp only [settle_signals, List.filter_append, hb.signals, firstAnswer_snoc, hans]
        by_cases hi : i = id
        · subst hi
          rw [hb.outstanding]
          cases hfirst : firstAnswer i es with
          | none => simp
          | some r' => simp
        · split
          · simp
          · simp [hi]

theorem Standing.snoc_of_quiet (hs : Standing c₀ id es c) (hans : e.answers id = none)
    (hw : id ∈ c'.waiting ↔ id ∈ c.waiting)
    (hret : c'.returned.filter (fun p => p.1 = id) = c.returned.filter fun p => p.1 = id)
    (hres : c'.results.lookup id = c.results.lookup id) : Standing c₀ id (es ++ [e]) c' := by
  cases hs with
  | waits hw' hret' hres' =>
    refine .waits (hw.2 hw') (hret.trans hret') ?_
    rw [hres, hres', firstAnswer_snoc, hans, Option.or_none]
  | returned mid timedOut post c₁ hes hmid htop ht hw' hret' hres' =>
    refine .returned mid timedOut (post ++ [e]) c₁ (by simp [hes]) hmid htop ht (fun h => hw' (hw.1 h)) (hret.trans hret') ?_
    rw [hres, hres', firstAnswer_snoc, hans, Option.or_none]

/-- **One event: a synchronous call ends with the answer its request has by then.** -/
theorem standing_step (hrun : Runs.run step c₀ es = some c) (h : c.step e = some c') (hi : Inv c)
    (hb : Books id .waitForSyncCallbacks es c) (hs : Standing c₀ id es c) : Standing c₀ id (es ++ [e]) c' := by
  cases e with
  | call i method args =>
    simp only [step, Option.ite_none_right_eq_some, Option.some.injEq] at h
    obtain ⟨hf, rfl⟩ := h
    have hne := ne_of_issued hb.issued hf
    exact hs.snoc_of_quiet rfl (by simp [doCall, hne.symm]) rfl rfl
  | callAsync i method args =>
    simp only [step, Option.ite_none_right_eq_some, Option.some.injEq] at h
    obtain ⟨hf, rfl⟩ := h
    exact hs.snoc_of_quiet rfl (by simp [doCall]) rfl rfl
  | notification method args =>
    obtain rfl := Option.some.inj h
    exact hs.snoc_of_quiet rfl .rfl rfl rfl
  | enableReceiveNotification enabled =>
    obtain rfl := Option.some.inj h
    exact hs.snoc_of_quiet rfl .rfl rfl rfl
  | received response =>
    obtain rfl := Option.some.inj h
    rw [jsonResponseReceived_eq]
    cases ha : answerOf response with
    | none => exact hs.snoc_of_quiet (by simp [Event.answers, ha]) .rfl rfl rfl
    | some a =>
      obtain ⟨i, r⟩ := a
      have hans : (Event.received response).answers id = if i = id then some r else none := by
        simp [Event.answers, ha]
      by_cases hii : i = id
      · subst hii
        rw [if_pos rfl] at hans
        have hlook : (c.settle i r).results.lookup i = if firstAnswer i es = none then some r else c.results.lookup i := by
          rw [settle_results, hb.outstanding]
          by_cases hfirst : firstAnswer i es = none
          · simp [hfirst]
          · simp [hfirst]
        cases hs with
        | waits hw hret hres =>
          refine .waits (by simpa using hw) (by simpa using hret) ?_
          rw [hlook, hres, firstAnswer_snoc, hans]
          cases firstAnswer i es with
          | none => rfl
          | some r' => rfl
        | returned mid timedOut post c₁ hes hmid htop ht hw hret hres =>
          refine .returned mid timedOut (post ++ [.received response]) c₁ (by simp [hes]) hmid htop ht (by simpa using hw)
            (by simpa using hret) ?_
          rw [hlook, hres, hes, firstAnswer_returns, firstAnswer_snoc, hans]
          cases firstAnswer i mid with
          | none =>
            cases firstAnswer i post with
            | none => rfl
            | some r' => rfl
          | some r' => rfl
      · rw [if_neg hii] at hans
        refine hs.snoc_of_quiet hans (by simp) (by simp) ?_
        simp [settle_results, Ne.symm hii]
  | returns timedOut =>
    obtain ⟨i, waiting, hw, hguard, rfl⟩ := returns_spec h
    by_cases hii : i = id
    · subst hii
      cases hs with
      | returned mid timedOut' post c₁ hes hmid htop ht hw' hret hres => exact absurd (by simp [hw]) hw'
      | waits hw' hret hres =>
        have hnd := hi.nodup
        rw [hw, List.nodup_cons] at hnd
        refine .returned es timedOut [] c rfl hrun (by simp [hw]) ?_ hnd.1 ?_ ?_
        · rcases hguard with hout | ht
          · right
            intro hnone
            rw [← AList.lookup_eq_none, hb.outstanding, if_pos hnone] at hout
            cases hout
          · exact .inl ht
        · rw [List.filter_append, hret, hres]
          simp
        · rw [AList.lookup_erase]
          simp [firstAnswer]
    · refine hs.snoc_of_quiet rfl ?_ ?_ ?_
      · simp [hw, Ne.symm hii]
      · simp [hii]
      · exact AList.lookup_erase_ne (Ne.symm hii)

end Steps

/-- The run up to a call, and the call. -/
theorem run_split {pre post : List Event} {e : Event} {c : JsonRpcClient}
    (h : Runs.run step {} (pre ++ e :: post) = some c) :
    ∃ c₀ c₁, Runs.run step {} pre = some c₀ ∧ Inv c₀ ∧ c₀.step e = some c₁ ∧ Runs.run step c₁ post = some c := by
  obtain ⟨c₀, hpre, hrest⟩ := Runs.run_append.1 h
  obtain ⟨c₁, hstep, hpost⟩ := Runs.run_cons.1 hrest
  exact ⟨c₀, c₁, hpre, Runs.run_inv inv_step hpre inv_init, hstep, hpost⟩

/-- What holds of the books after the events so far is kept by the events to come. -/
theorem books_run {id : RequestId} {caller : Caller} {post : List Event} {c₁ c : JsonRpcClient}
    (h : Runs.run step c₁ post = some c) {es : List Event} (hb : Books id caller es c₁) :
    Books id caller (es ++ post) c := by
  induction post generalizing es c₁ with
  | nil =>
    obtain rfl := Option.some.inj h
    simpa using hb
  | cons e post ih =>
    obtain ⟨c₂, hstep, hrest⟩ := Runs.run_cons.1 h
    have := ih hrest (books_step hstep hb)
    rwa [List.append_assoc, List.singleton_append] at this

theorem standing_run {id : RequestId} {post : List Event} {c₀ c₁ c : JsonRpcClient}
    (h : Runs.run step c₁ post = some c) {es : List Event} (hrun : Runs.run step c₀ es = some c₁) (hi : Inv c₁)
    (hb : Books id .waitForSyncCallbacks es c₁) (hs : Standing c₀ id es c₁) : Standing c₀ id (es ++ post) c := by
  induction post generalizing es c₁ with
  | nil =>
    obtain rfl := Option.some.inj h
    simpa using hs
  | cons e post ih =>
    obtain ⟨c₂, hstep, hrest⟩ := Runs.run_cons.1 h
    have hsnoc : Runs.run step c₀ (es ++ [e]) = some c₂ := Runs.run_append.2 ⟨c₁, hrun, by simpa using hstep⟩
    have := ih hrest hsnoc (inv_step hstep hi) (books_step hstep hb) (standing_step hrun hstep hi hb hs)
    rwa [List.append_assoc, List.singleton_append] at this

/-- **The books balance in every run.** A request is outstanding until its first answer, emits one signal,
which carries that answer, and none before; the counter counts the outstanding ones. -/
theorem books_balance {pre post : List Event} {e : Event} {id : RequestId} {method : String} {args : Args}
    {c : JsonRpcClient} (he : e = .call id method args ∨ e = .callAsync id method args)
    (h : Runs.run step {} (pre ++ e :: post) = some c) :
    (id ∈ c.outstandingRequests ↔ firstAnswer id post = none) ∧
    c.signals.filter (fun p => p.1 = id) = (firstAnswer id post).toList.map (fun r => (id, r)) ∧
    c.outstandingRequestCount = c.outstandingRequests.keys.length := by
  obtain ⟨c₀, c₁, -, hi, hstep, hrun⟩ := run_split h
  have hcount := (Runs.run_inv inv_step hrun (inv_step hstep hi)).count
  obtain ⟨caller, hb⟩ : ∃ caller, Books id caller [] c₁ := by
    rcases he with rfl | rfl
    · simp only [step, Option.ite_none_right_eq_some, Option.some.injEq] at hstep
      obtain ⟨hf, rfl⟩ := hstep
      obtain ⟨h₁, h₂, h₃⟩ := books_doCall .waitForSyncCallbacks hi hf method args
      exact ⟨_, h₁, h₂, h₃⟩
    · simp only [step, Option.ite_none_right_eq_some, Option.some.injEq] at hstep
      obtain ⟨hf, rfl⟩ := hstep
      exact ⟨_, books_doCall .callAsync hi hf method args⟩
  have hfin := books_run hrun hb
  rw [List.nil_append] at hfin
  refine ⟨?_, hfin.signals, hcount⟩
  rw [← AList.lookup_isSome, hfin.outstanding]
  by_cases hnone : firstAnswer id post = none
  · simp [hnone]
  · simp [hnone]

/-- The answer `"pong"` to the request `a`. -/
def pong : JsonObject := [("jsonrpc", .string "2.0"), ("id", .string "a"), ("result", .string "pong")]

/-- An answer that comes twice is signalled once. -/
theorem books_balance_twice :
    ∃ c, Runs.run step {} [.callAsync "a" "ping" (.list []), .received pong, .received pong] = some c ∧
      "a" ∉ c.outstandingRequests ∧ (c.signals.filter fun p => p.1 = "a").length = 1 := by
  have hfirst : firstAnswer "a" [.received pong, .received pong] = some (.success (.string "pong")) := rfl
  obtain ⟨c, hc⟩ : ∃ c, Runs.run step {} [.callAsync "a" "ping" (.list []), .received pong, .received pong] = some c :=
    ⟨_, rfl⟩
  obtain ⟨hout, hsignals, -⟩ := @books_balance [] _ (.callAsync "a" "ping" (.list [])) "a" _ _ c (.inr rfl) hc
  rw [hfirst] at hout hsignals
  refine ⟨c, hc, ?_, ?_⟩
  · simpa using hout
  · rw [hsignals]
    rfl

/-- **A synchronous call returns the first answer its request gets before the wait ends, and the time-out
error if it gets none**, whatever else arrives and whatever calls run inside the wait. An answer that comes
later is kept and never taken. -/
theorem call_outcome {pre post : List Event} {id : RequestId} {method : String} {args : Args} {c : JsonRpcClient}
    (h : Runs.run step {} (pre ++ .call id method args :: post) = some c) :
    ∃ c₀, Runs.run step {} (pre ++ [.call id method args]) = some c₀ ∧ Standing c₀ id post c := by
  obtain ⟨c₀, c₁, hpre, hi, hstep, hrun⟩ := run_split h
  have hi₁ := inv_step hstep hi
  refine ⟨c₁, Runs.run_append.2 ⟨c₀, hpre, by simpa using hstep⟩, ?_⟩
  simp only [step, Option.ite_none_right_eq_some, Option.some.injEq] at hstep
  obtain ⟨hf, rfl⟩ := hstep
  obtain ⟨-, hres, -, hret⟩ := hi.fresh hf
  have hb : Books id .waitForSyncCallbacks []
      { c₀.doCall .waitForSyncCallbacks id method args with waiting := id :: c₀.waiting } := by
    obtain ⟨h₁, h₂, h₃⟩ := books_doCall .waitForSyncCallbacks hi hf method args
    exact ⟨h₁, h₂, h₃⟩
  exact standing_run hrun rfl hi₁ hb (.waits List.mem_cons_self hret hres)

/-- Another call begins in the wait of the first, which is answered meanwhile: the inner one times out, and then the
outer one returns its answer. -/
theorem call_outcome_nested :
    ∃ c₀ c, Runs.run step {} [.call "a" "ping" (.list [])] = some c₀ ∧
      Runs.run step {} [.call "a" "ping" (.list []), .call "b" "ping" (.list []), .received pong, .returns true,
        .returns false] = some c ∧
      Standing c₀ "a" [.call "b" "ping" (.list []), .received pong, .returns true, .returns false] c ∧
      c.returned = [("b", timedOutResult), ("a", .success (.string "pong"))] := by
  obtain ⟨c, hc, hreturned⟩ : ∃ c, Runs.run step {} [.call "a" "ping" (.list []), .call "b" "ping" (.list []),
      .received pong, .returns true, .returns false] = some c ∧
        c.returned = [("b", timedOutResult), ("a", .success (.string "pong"))] := ⟨_, rfl, rfl⟩
  obtain ⟨c₀, hc₀, hstanding⟩ := @call_outcome [] _ _ _ _ c hc
  exact ⟨c₀, c, hc₀, hc, hstanding, hreturned⟩

/-! ## What was sent -/

/-- The id of a request; a notification has none. -/
def idOf (request : JsonObject) : Option RequestId :=
  match request.get "id" with
  | .string s => some s
  | _ => none

theorem get_request (method : String) (id : RequestId) (args : Args) :
    JsonObject.get (createRequestJsonObject method id ++ args.params) "id" = .string id ∧
    JsonObject.get (createRequestJsonObject method id ++ args.params) "jsonrpc" = .string "2.0" := ⟨rfl, rfl⟩

theorem get_notification (method : String) (args : Args) :
    JsonObject.get (createNotificationJsonObject method ++ args.params) "id" = .undefined ∧
    JsonObject.get (createNotificationJsonObject method ++ args.params) "jsonrpc" = .string "2.0" := by
  refine ⟨?_, rfl⟩
  cases args with
  | list args =>
    simp only [Args.params]
    split <;> rfl
  | named args =>
    simp only [Args.params]
    split <;> rfl

/-- One request was sent for each id given out, in that order; and only what was signalled is returned or kept to
be. -/
structure SentInv (c : JsonRpcClient) : Prop where
  ids : c.sent.filterMap idOf = c.issued.reverse
  nodup : c.issued.Nodup
  valid : InvalidRequestId ∉ c.issued
  formed : ∀ o ∈ c.sent, o.get "jsonrpc" = .string "2.0" ∧ (o.get "id" = .undefined ∨ ∃ id, o.get "id" = .string id)
  results : ∀ id r, c.results.lookup id = some r → (id, r) ∈ c.signals
  returned : ∀ p ∈ c.returned, p.2 = timedOutResult ∨ p ∈ c.signals

theorem sentInv_init : SentInv {} := by
  refine ⟨rfl, ?_, ?_, ?_, ?_, ?_⟩ <;> simp

theorem sentInv_doCall {c : JsonRpcClient} (h : SentInv c) {id : RequestId} (hid : c.Fresh id) (caller : Caller)
    (method : String) (args : Args) : SentInv (c.doCall caller id method args) := by
  obtain ⟨hget, htag⟩ := get_request method id args
  refine ⟨?_, ?_, ?_, ?_, h.results, h.returned⟩
  · simp only [doCall, List.filterMap_append, h.ids, List.filterMap_cons, idOf, hget, List.filterMap_nil,
      List.reverse_cons]
  · exact List.nodup_cons.2 ⟨hid.2, h.nodup⟩
  · simp only [doCall, List.mem_cons, not_or]
    exact ⟨fun e => hid.1 e.symm, h.valid⟩
  · intro o ho
    rcases List.mem_append.1 ho with ho | ho
    · exact h.formed o ho
    · rw [List.mem_singleton.1 ho]
      exact ⟨htag, .inr ⟨id, hget⟩⟩

theorem settle_sent (id : RequestId) (r : JsonRpcResult) (c : JsonRpcClient) : (c.settle id r).sent = c.sent := by
  unfold settle
  split <;> rfl

theorem sentInv_settle {c : JsonRpcClient} (h : SentInv c) (id : RequestId) (r : JsonRpcResult) :
    SentInv (c.settle id r) := by
  refine ⟨?_, ?_, ?_, ?_, ?_, ?_⟩
  · simpa [settle_sent] using h.ids
  · simpa using h.nodup
  · simpa using h.valid
  · simpa [settle_sent] using h.formed
  · intro i r' hlook
    rw [settle_results] at hlook
    rw [settle_signals]
    by_cases hi : i = id ∧ c.outstandingRequests.lookup id = some .waitForSyncCallbacks
    · rw [if_pos hi, Option.some.injEq] at hlook
      rw [if_neg (by simp [hi.2]), hi.1, hlook]
      simp
    · rw [if_neg hi] at hlook
      exact List.mem_append_left _ (h.results i r' hlook)
  · intro p hp
    rw [settle_returned] at hp
    rw [settle_signals]
    exact (h.returned p hp).imp_right (List.mem_append_left _)

theorem sentInv_step {c c' : JsonRpcClient} {e : Event} (h : c.step e = some c') (hs : SentInv c) : SentInv c' := by
  cases e with
  | call id method args =>
    simp only [step, Option.ite_none_right_eq_some, Option.some.injEq] at h
    obtain ⟨hid, rfl⟩ := h
    obtain ⟨h₁, h₂, h₃, h₄, h₅, h₆⟩ := sentInv_doCall hs hid .waitForSyncCallbacks method args
    exact ⟨h₁, h₂, h₃, h₄, h₅, h₆⟩
  | callAsync id method args =>
    simp only [step, Option.ite_none_right_eq_some, Option.some.injEq] at h
    obtain ⟨hid, rfl⟩ := h
    exact sentInv_doCall hs hid .callAsync method args
  | notification method args =>
    obtain rfl := Option.some.inj h
    obtain ⟨hget, htag⟩ := get_notification method args
    refine ⟨?_, hs.nodup, hs.valid, ?_, hs.results, hs.returned⟩
    · simp only [List.filterMap_append, hs.ids, List.filterMap_cons, idOf, hget, List.filterMap_nil, List.append_nil]
    · intro o ho
      rcases List.mem_append.1 ho with ho | ho
      · exact hs.formed o ho
      · rw [List.mem_singleton.1 ho]
        exact ⟨htag, .inl hget⟩
  | enableReceiveNotification enabled =>
    obtain rfl := Option.some.inj h
    exact ⟨hs.ids, hs.nodup, hs.valid, hs.formed, hs.results, hs.returned⟩
  | received response =>
    obtain rfl := Option.some.inj h
    rw [jsonResponseReceived_eq]
    cases answerOf response with
    | none => exact ⟨hs.ids, hs.nodup, hs.valid, hs.formed, hs.results, hs.returned⟩
    | some a => exact sentInv_settle hs a.1 a.2
  | returns timedOut =>
    obtain ⟨id, waiting, hw, -, rfl⟩ := returns_spec h
    refine ⟨hs.ids, hs.nodup, hs.valid, hs.formed, ?_, ?_⟩
    · intro i r hlook
      by_cases hi : i = id
      · subst hi
        simp at hlook
      · rw [AList.lookup_erase_ne hi] at hlook
        exact hs.results i r hlook
    · intro p hp
      rcases List.mem_append.1 hp with hp | hp
      · exact hs.returned p hp
      · rw [List.mem_singleton.1 hp]
        cases hr : c.results.lookup id with
        | none => exact .inl rfl
        | some r => exact .inr (hs.results id r hr)

/-- What a client does on its own, without a message: nothing is settled, and only what it sends is new. -/
theorem local_step {c c' : JsonRpcClient} {e : Event} (h : c.step e = some c') (he : ∀ response, e ≠ .received response) :
    c.sent <+: c'.sent ∧ c'.signals = c.signals ∧ (∀ id ∈ c.issued, id ∈ c'.issued) ∧
      ∀ id ∈ c'.outstandingRequests, id ∈ c.outstandingRequests ∨ id ∉ c.issued := by
  cases e with
  | call id method args =>
    simp only [step, Option.ite_none_right_eq_some, Option.some.injEq] at h
    obtain ⟨hid, rfl⟩ := h
    refine ⟨List.prefix_append _ _, rfl, fun i hi => List.mem_cons_of_mem _ hi, ?_⟩
    intro i hi
    rcases (AList.mem_insert _).1 hi with rfl | hi
    · exact .inr hid.2
    · exact .inl hi
  | callAsync id method args =>
    simp only [step, Option.ite_none_right_eq_some, Option.some.injEq] at h
    obtain ⟨hid, rfl⟩ := h
    refine ⟨List.prefix_append _ _, rfl, fun i hi => List.mem_cons_of_mem _ hi, ?_⟩
    intro i hi
    rcases (AList.mem_insert _).1 hi with rfl | hi
    · exact .inr hid.2
    · exact .inl hi
  | notification method args =>
    obtain rfl := Option.some.inj h
    exact ⟨List.prefix_append _ _, rfl, fun _ hi => hi, fun _ hi => .inl hi⟩
  | enableReceiveNotification enabled =>
    obtain rfl := Option.some.inj h
    exact ⟨List.prefix_rfl, rfl, fun _ hi => hi, fun _ hi => .inl hi⟩
  | received response => exact absurd rfl (he response)
  | returns timedOut =>
    obtain ⟨id, waiting, hw, -, rfl⟩ := returns_spec h
    exact ⟨List.prefix_rfl, rfl, fun _ hi => hi, fun _ hi => .inl hi⟩

/-- Nor is it told anything, and it goes on listening unless it turns that off. -/
theorem local_step_notifications {c c' : JsonRpcClient} {e : Event} (h : c.step e = some c')
    (he : ∀ response, e ≠ .received response) :
    c'.notifications = c.notifications ∧
      (e ≠ .enableReceiveNotification false → c.allowNotification = true → c'.allowNotification = true) := by
  cases e with
  | call id method args =>
    simp only [step, Option.ite_none_right_eq_some, Option.some.injEq] at h
    obtain ⟨-, rfl⟩ := h
    exact ⟨rfl, fun _ ha => ha⟩
  | callAsync id method args =>
    simp only [step, Option.ite_none_right_eq_some, Option.some.injEq] at h
    obtain ⟨-, rfl⟩ := h
    exact ⟨rfl, fun _ ha => ha⟩
  | notification method args =>
    obtain rfl := Option.some.inj h
    exact ⟨rfl, fun _ ha => ha⟩
  | enableReceiveNotification enabled =>
    obtain rfl := Option.some.inj h
    refine ⟨rfl, ?_⟩
    intro hne _
    cases enabled with
    | true => rfl
    | false => exact absurd rfl hne
  | received response => exact absurd rfl (he response)
  | returns timedOut =>
    obtain ⟨id, waiting, hw, -, rfl⟩ := returns_spec h
    exact ⟨rfl, fun _ ha => ha⟩

/-! ## What arrives -/

/-- What objects from the server can do to the client. -/
structure Hears (os : List JsonObject) (c c' : JsonRpcClient) : Prop where
  sent : c'.sent = c.sent
  issued : c'.issued = c.issued
  waiting : c'.waiting = c.waiting
  returned : c'.returned = c.returned
  allowNotification : c'.allowNotification = c.allowNotification
  notifications : c'.notifications = c.notifications ++ if c.allowNotification then os.filterMap notificationOf else []
  signals : ∀ p ∈ c'.signals, p ∈ c.signals ∨ ∃ o ∈ os, answerOf o = some p
  outstanding : ∀ id ∈ c'.outstandingRequests, id ∈ c.outstandingRequests ∧ ∀ o ∈ os, ∀ r, answerOf o ≠ some (id, r)

theorem Hears.nil (c : JsonRpcClient) : Hears [] c c where
  sent := rfl
  issued := rfl
  waiting := rfl
  returned := rfl
  allowNotification := rfl
  notifications := by simp
  signals := fun _ hp => .inl hp
  outstanding := fun _ hid => ⟨hid, by simp⟩

theorem Hears.one (o : JsonObject) (c : JsonRpcClient) : Hears [o] c (c.jsonResponseReceived o) := by
  obtain ⟨hallow, hnot⟩ := jsonResponseReceived_notifications o c
  have hnot' : (c.jsonResponseReceived o).notifications =
      c.notifications ++ if c.allowNotification then [o].filterMap notificationOf else [] := by
    have hone : [o].filterMap notificationOf = (notificationOf o).toList := by
      cases hn : notificationOf o with
      | none => simp [hn]
      | some n => simp [hn]
    rw [hnot, hone]
  rw [jsonResponseReceived_eq] at hallow hnot' ⊢
  cases ha : answerOf o with
  | none =>
    rw [ha] at hallow hnot'
    refine ⟨rfl, rfl, rfl, rfl, hallow, hnot', fun p hp => .inl hp, ?_⟩
    intro id hid
    refine ⟨hid, ?_⟩
    simp [ha]
  | some a =>
    rw [ha] at hallow hnot'
    refine ⟨settle_sent _ _ _, settle_issued _ _ _, settle_waiting _ _ _, settle_returned _ _ _, hallow, hnot', ?_, ?_⟩
    · intro p hp
      rw [settle_signals] at hp
      rcases List.mem_append.1 hp with hp | hp
      · exact .inl hp
      · right
        split at hp
        · cases hp
        · exact ⟨o, List.mem_singleton_self o, by rw [ha, List.mem_singleton.1 hp]⟩
    · intro id hid
      rw [← AList.lookup_isSome, settle_outstanding] at hid
      by_cases hne : id = a.1
      · simp [hne] at hid
      · rw [if_neg hne] at hid
        refine ⟨AList.lookup_isSome.1 hid, ?_⟩
        intro o' ho' r hr
        rw [List.mem_singleton.1 ho', ha, Option.some.injEq] at hr
        exact hne (by rw [hr])

theorem Hears.append {os os' : List JsonObject} {c c' c'' : JsonRpcClient} (h : Hears os c c') (h' : Hears os' c' c'') :
    Hears (os ++ os') c c'' where
  sent := h'.sent.trans h.sent
  issued := h'.issued.trans h.issued
  waiting := h'.waiting.trans h.waiting
  returned := h'.returned.trans h.returned
  allowNotification := h'.allowNotification.trans h.allowNotification
  notifications := by
    rw [h'.notifications, h.notifications, h.allowNotification]
    cases c.allowNotification <;> simp
  signals := by
    intro p hp
    rcases h'.signals p hp with hp | ⟨o, ho, hp⟩
    · rcases h.signals p hp with hp | ⟨o, ho, hp⟩
      · exact .inl hp
      · exact .inr ⟨o, List.mem_append_left _ ho, hp⟩
    · exact .inr ⟨o, List.mem_append_right _ ho, hp⟩
  outstanding := by
    intro id hid
    obtain ⟨hid, hlate⟩ := h'.outstanding id hid
    obtain ⟨hid, hearly⟩ := h.outstanding id hid
    refine ⟨hid, ?_⟩
    intro o ho
    rcases List.mem_append.1 ho with ho | ho
    · exact hearly o ho
    · exact hlate o ho

/-- The objects of one packet. -/
def receiveObjects (os : List JsonObject) (c : JsonRpcClient) : JsonRpcClient :=
  os.foldl (fun c response => c.jsonResponseReceived response) c

theorem receiveObjects_hears (os : List JsonObject) (c : JsonRpcClient) : Hears os c (c.receiveObjects os) := by
  induction os generalizing c with
  | nil => exact .nil c
  | cons o os ih => exact (Hears.one o c).append (ih (c.jsonResponseReceived o))

theorem receiveObjects_inv (os : List JsonObject) {c : JsonRpcClient} (hi : c.Inv) (hs : c.SentInv) :
    (c.receiveObjects os).Inv ∧ (c.receiveObjects os).SentInv := by
  induction os generalizing c with
  | nil => exact ⟨hi, hs⟩
  | cons o os ih =>
    have hstep : c.step (.received o) = some (c.jsonResponseReceived o) := rfl
    exact ih (inv_step hstep hi) (sentInv_step hstep hs)

end JsonRpcClient

end SegsLauncher
