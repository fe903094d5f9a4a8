import SegsLauncher.RpcClient
/-!
# The RPC server (json_rpc_server.cpp)

The server looks a request's method up among those of its services, calls it and sends back what it
returned. The services are Qt objects: what a method does, and how a `QVariant` is converted to a
parameter's type, are parameters here.

| here | there |
| --- | --- |
| `MetaMethod`                        | `QMetaMethod`; `invoke` is **Qt boundary**, `none` where it refuses the arguments |
| `ReturnValue`                       | the `return_value` of `doCall` and the value of a notification, by its `QVariant::type()` |
| `JsonRpcServer.convertArgs`         | `json_rpc_server.cpp:258` |
| `JsonRpcServer.convertNamedArgs`    | `:304`, the overload for a `QVariantMap` |
| `JsonRpcServer.dispatch`            | `:163`, with `call` and `doCall` |
| `JsonRpcServer.jsonRequestReceived` | `:105`, with the response it sends |
| `serviceNotificationReceived`       | `:522`; `getAllClients` puts as many null pointers before the endpoints, and the loop skips them |
| `convert`                           | **Qt boundary**: `canConvert` and `convert` of an argument; `none` where `convert` fails |
| `numberText`                        | **Qt boundary**: the text `QVariant(double)::toString()` gives a numeric id |

The locale's text of a type's number, which a `%L` in the client's method name can ask for, is taken to be the plain
one.
-/
namespace SegsLauncher

/-! ## `QString::arg` -/

/-- The digits of the basic multilingual plane, in runs: the first one, its value, how many. -/
def digitRuns : List (Nat × Nat × Nat) :=
  [(0x30, 0, 10), (0xB2, 2, 2), (0xB9, 1, 1), (0x660, 0, 10), (0x6F0, 0, 10), (0x7C0, 0, 10), (0x966, 0, 10),
   (0x9E6, 0, 10), (0xA66, 0, 10), (0xAE6, 0, 10), (0xB66, 0, 10), (0xBE6, 0, 10), (0xC66, 0, 10),
   (0xCE6, 0, 10), (0xD66, 0, 10), (0xDE6, 0, 10), (0xE50, 0, 10), (0xED0, 0, 10), (0xF20, 0, 10),
   (0x1040, 0, 10), (0x1090, 0, 10), (0x1369, 1, 9), (0x17E0, 0, 10), (0x1810, 0, 10), (0x1946, 0, 10),
   (0x19D0, 0, 10), (0x19DA, 1, 1), (0x1A80, 0, 10), (0x1A90, 0, 10), (0x1B50, 0, 10), (0x1BB0, 0, 10),
   (0x1C40, 0, 10), (0x1C50, 0, 10), (0x2070, 0, 1), (0x2074, 4, 6), (0x2080, 0, 10), (0x2460, 1, 9),
   (0x2474, 1, 9), (0x2488, 1, 9), (0x24EA, 0, 1), (0x24F5, 1, 9), (0x24FF, 0, 1), (0x2776, 1, 9),
   (0x2780, 1, 9), (0x278A, 1, 9), (0xA620, 0, 10), (0xA8D0, 0, 10), (0xA900, 0, 10), (0xA9D0, 0, 10),
   (0xA9F0, 0, 10), (0xAA50, 0, 10), (0xABF0, 0, 10), (0xFF10, 0, 10)]

/-- `QChar::digitValue`; a character outside the plane is two `QChar`s, neither of them a digit. -/
def QChar.digitValue (c : Char) : Option Nat :=
  digitRuns.findSome? fun (first, value, count) =>
    if first ≤ c.toNat ∧ c.toNat < first + count then some (value + (c.toNat - first)) else none

/-- `%n` or `%Ln`, with one or two digits. -/
structure PlaceMarker where
  number : Nat
  text : List Char

/-- The digits of a place marker that begins with `text`. -/
def markerDigits (text : List Char) : List Char → Option PlaceMarker
  | [] => none
  | [d] => (QChar.digitValue d).map fun m => ⟨m, text ++ [d]⟩
  | d :: e :: _ =>
    (QChar.digitValue d).map fun m =>
      match QChar.digitValue e with
      | some n => ⟨10 * m + n, text ++ [d, e]⟩
      | none => ⟨m, text ++ [d]⟩

/-- The place marker a text begins with. -/
def placeMarker : List Char → Option PlaceMarker
  | '%' :: 'L' :: cs => markerDigits ['%', 'L'] cs
  | '%' :: cs => markerDigits ['%'] cs
  | _ => none

/-- A text cut at its place markers; the first `skip` characters belong to the last one. -/
def placeMarkers : Nat → List Char → List (Char ⊕ PlaceMarker)
  | _, [] => []
  | skip + 1, _ :: cs => placeMarkers skip cs
  | 0, c :: cs =>
    match placeMarker (c :: cs) with
    | some marker => .inr marker :: placeMarkers (marker.text.length - 1) cs
    | none => .inl c :: placeMarkers 0 cs

/-- `template.arg(a)`: every place marker with the lowest number is replaced, the others stay as they are. -/
def arg (template a : String) : String :=
  let pieces := placeMarkers 0 template.toList
  let lowest := (pieces.filterMap fun piece => piece.getRight?.map PlaceMarker.number).min?
  String.ofList (pieces.flatMap fun
    | .inl c => [c]
    | .inr marker => if some marker.number = lowest then a.toList else marker.text)

example : arg (arg "method '%1' has unknown return type: %2" "a%L2.%03") "5" =
    "method 'a5.%03' has unknown return type: 5" := by
  decide

/-! ## Services -/

inductive ReturnValue where
  | invalid
  | list (vs : List Json)
  | map (members : List (String × Json))
  | int (n : Int)
  | double (mantissa : Int) (exponent : Nat)
  | bool (b : Bool)
  | string (s : String)
  /-- A `QVariant` of any other type. -/
  | other (type : Int)

structure Parameter where
  type : String
  name : String

structure MetaMethod (σ : Type) where
  name : String
  parameters : List Parameter
  invoke : List Json → σ → Option (σ × ReturnValue)

structure Service (σ : Type) where
  ns : String
  methods : List (MetaMethod σ)

structure JsonRpcServer (σ : Type) where
  /-- `m_services`, in the order of the `QMap`. -/
  services : List (Service σ)
  nsSeparator : String

/-! ## Responses -/

def EC_InvalidRequest : Int := -32600
def EC_MethodNotFound : Int := -32601

def createErrorResponse (requestId : RequestId) (code : Int) (message : String) : JsonObject :=
  [("jsonrpc", .string "2.0"),
   ("error", .object [("code", .double code 0), ("message", .string message)]),
   ("id", .string requestId)]

def unknownReturnType (methodName : String) (type : Int) : String :=
  arg (arg "method '%1' has unknown return type: %2" methodName) s!"{type}"

def createResponse (requestId : RequestId) (returnValue : ReturnValue) (methodName : String) : JsonObject :=
  let resJsonObj : JsonObject := [("jsonrpc", .string "2.0"), ("id", .string requestId)]
  match returnValue with
  | .invalid => resJsonObj ++ [("result", .null)]
  | .list vs => resJsonObj ++ [("result", .array vs)]
  | .map members => resJsonObj ++ [("result", .object members)]
  | .int n => resJsonObj ++ [("result", .double n 0)]
  | .double mantissa exponent => resJsonObj ++ [("result", .double mantissa exponent)]
  | .bool b => resJsonObj ++ [("result", .bool b)]
  | .string s => resJsonObj ++ [("result", .string s)]
  | .other type => createErrorResponse requestId EC_InvalidRequest (unknownReturnType methodName type)

/-- `none` for the null document. -/
def createNotification (key : String) (value : ReturnValue) : Option JsonObject :=
  let notiJsonObj : JsonObject := [("jsonrpc", .string "2.0"), ("method", .string key)]
  match value with
  | .invalid => some (notiJsonObj ++ [("params", .null)])
  | .list vs => some (notiJsonObj ++ [("params", .array vs)])
  | .map members => some (notiJsonObj ++ [("params", .object members)])
  | .int n => some (notiJsonObj ++ [("params", .double n 0)])
  | .double mantissa exponent => some (notiJsonObj ++ [("params", .double mantissa exponent)])
  | .bool b => some (notiJsonObj ++ [("params", .bool b)])
  | .string s => some (notiJsonObj ++ [("params", .string s)])
  | .other _ => none

/-- What `serviceNotificationReceived` sends to every client. -/
def serviceNotificationReceived (key : String) (value : ReturnValue) : Option JsonObject :=
  if key.isEmpty then none else createNotification key value

/-- A client reads in a notification the key and the value, and no answer. -/
theorem notificationOf_sent {key : String} {value : ReturnValue} {n : JsonObject}
    (h : serviceNotificationReceived key value = some n) :
    notificationOf n = some (key, n.get "params") ∧ answerOf n = none := by
  have hread : ∀ v : Json, v.isUndefined = false →
      notificationOf [("jsonrpc", .string "2.0"), ("method", .string key), ("params", v)] = some (key, v) ∧
        answerOf [("jsonrpc", .string "2.0"), ("method", .string key), ("params", v)] = none := by
    intro v hv
    have hid : JsonObject.get [("jsonrpc", .string "2.0"), ("method", .string key), ("params", v)] "id" =
        .undefined := rfl
    have hcontains : JsonObject.contains [("jsonrpc", .string "2.0"), ("method", .string key), ("params", v)] "id" =
        false := rfl
    have htag : JsonObject.get [("jsonrpc", .string "2.0"), ("method", .string key), ("params", v)] "jsonrpc" =
        .string "2.0" := rfl
    have herr : JsonObject.get [("jsonrpc", .string "2.0"), ("method", .string key), ("params", v)] "error" =
        .undefined := rfl
    have hmethod : JsonObject.get [("jsonrpc", .string "2.0"), ("method", .string key), ("params", v)] "method" =
        .string key := rfl
    have hparams : JsonObject.get [("jsonrpc", .string "2.0"), ("method", .string key), ("params", v)] "params" =
        v := rfl
    have hkey : (Json.string key).isUndefined = false := rfl
    refine ⟨?_, ?_⟩
    · simp [notificationOf, htag, herr, hcontains, hmethod, hparams, hkey, hv, Json.isObject, Json.toString]
    · simp [answerOf, hid, Json.toStringOr]
  simp only [serviceNotificationReceived, Option.ite_none_left_eq_some] at h
  obtain ⟨-, h⟩ := h
  cases value with
  | other type => cases h
  | invalid | list | map | int | double | bool | string =>
    obtain rfl := Option.some.inj h
    exact hread _ rfl

/-! ## Requests -/

/-- `full_name.lastIndexOf(separator)`, if it is not -1. -/
def lastIndexOf (separator s : List Char) : Option Nat :=
  (List.range (s.length + 1)).reverse.find? fun i => separator.isPrefixOf (s.drop i)

namespace JsonRpcServer

variable {σ : Type} (convert : String → Json → Option Json) (numberText : Int → Nat → String)

def namespaceAndMethodName (srv : JsonRpcServer σ) (fullName : String) : String × String :=
  if srv.nsSeparator.isEmpty then ("", fullName)
  else
    match lastIndexOf srv.nsSeparator.toList fullName.toList with
    | some li =>
      if li > 0 then
        (String.ofList (fullName.toList.take li), String.ofList (fullName.toList.drop (li + srv.nsSeparator.length)))
      else ("", fullName)
    | none => ("", fullName)

/-- One turn of the loop of either `convertArgs`. -/
def convertArg (p : Parameter) (arg : Json) : Option Json := if arg.isUndefined then none else convert p.type arg

def convertArgs (m : MetaMethod σ) (args : List Json) : Option (List Json) :=
  if args.length ≠ m.parameters.length then none
  else (m.parameters.zip args).mapM fun p => convertArg convert p.1 p.2

def convertNamedArgs (m : MetaMethod σ) (args : QMap Json) : Option (List Json) :=
  if args.keys.length ≠ m.parameters.length then none
  else m.parameters.mapM fun p => (args.lookup p.name).bind (convertArg convert p)

def call (m : MetaMethod σ) (args : List Json) (s : σ) : Option (σ × ReturnValue) :=
  (convertArgs convert m args).bind fun convertedArgs => m.invoke convertedArgs s

def callNamed (m : MetaMethod σ) (args : QMap Json) (s : σ) : Option (σ × ReturnValue) :=
  (convertNamedArgs convert m args).bind fun convertedArgs => m.invoke convertedArgs s

/-- The `QVariantMap` of an object. -/
def toMap (members : List (String × Json)) : QMap Json := (members.map fun p => ⟨p.1, p.2⟩).toAList

/-- The calls the inner loop of `dispatch` tries on a method of the right name. -/
def callParams (m : MetaMethod σ) (params : Json) (s : σ) : Option (σ × ReturnValue) :=
  match params with
  | .array args => call convert m args s
  | .object members => callNamed convert m (toMap members) s
  | .undefined => call convert m [] s
  | _ => none

def dispatch (srv : JsonRpcServer σ) (methodName : String) (params : Json) (s : σ) : Option (σ × ReturnValue) :=
  let (methodNs, methodNameWithoutNs) := srv.namespaceAndMethodName methodName
  let services := srv.services.filter fun x => x.ns.isEmpty || x.ns = methodNs
  services.findSome? fun x => x.methods.findSome? fun m =>
    if m.name = methodNameWithoutNs then callParams convert m params s else none

/-- `request.value("id").toVariant().toString()`. -/
def requestIdOf (request : JsonObject) : RequestId :=
  match request.get "id" with
  | .string s => s
  | .bool b => if b then "true" else "false"
  | .double mantissa exponent => numberText mantissa exponent
  | _ => ""

def methodNotFound (methodName : String) : String :=
  arg "method '%1' not found, check name and parameter types " methodName

/-- The state of the services, and the response if one is sent; `client` is whether `findClient` knows the
socket. -/
def jsonRequestReceived (srv : JsonRpcServer σ) (client : Bool) (request : JsonObject) (s : σ) :
    σ × Option JsonObject :=
  if (request.get "jsonrpc").toString ≠ "2.0" then (s, none)
  else
    let methodName := (request.get "method").toString
    let params := request.get "params"
    let requestId := requestIdOf numberText request
    match dispatch convert srv methodName params s with
    | none =>
      if requestId ≠ InvalidRequestId then
        if client then (s, some (createErrorResponse requestId EC_MethodNotFound (methodNotFound methodName)))
        else (s, none)
      else (s, none)
    | some (s, returnValue) =>
      if requestId ≠ InvalidRequestId then
        if client then (s, some (createResponse requestId returnValue methodName)) else (s, none)
      else (s, none)

/-! ## What the client reads in a response -/

/-- What a call comes to for the caller: `none` where no method took it. -/
def outcomeOf (methodName : String) : Option ReturnValue → JsonRpcResult
  | none => .error EC_MethodNotFound (methodNotFound methodName) .undefined
  | some .invalid => .success .null
  | some (.list vs) => .success (.array vs)
  | some (.map members) => .success (.object members)
  | some (.int n) => .success (.double n 0)
  | some (.double mantissa exponent) => .success (.double mantissa exponent)
  | some (.bool b) => .success (.bool b)
  | some (.string s) => .success (.string s)
  | some (.other type) => .error EC_InvalidRequest (unknownReturnType methodName type) .undefined

/-- A result, or an error for a method that is not there or whose return type is not known. -/
def IsAnswer (methodName : String) (r : JsonRpcResult) : Prop :=
  (∃ v, r = .success v) ∨ r = .error EC_MethodNotFound (methodNotFound methodName) .undefined ∨
    ∃ type, r = .error EC_InvalidRequest (unknownReturnType methodName type) .undefined

theorem isAnswer_outcomeOf (methodName : String) (returned : Option ReturnValue) :
    IsAnswer methodName (outcomeOf methodName returned) := by
  cases returned with
  | none => exact .inr (.inl rfl)
  | some v =>
    cases v with
    | other type => exact .inr (.inr ⟨type, rfl⟩)
    | invalid | list | map | int | double | bool | string => exact .inl ⟨_, rfl⟩

theorem answerOf_createErrorResponse {id : RequestId} (hid : id ≠ InvalidRequestId) {code : Int}
    (hcode : -2 ^ 31 ≤ code ∧ code < 2 ^ 31) (message : String) :
    answerOf (createErrorResponse id code message) = some (id, .error code message .undefined) := by
  have hget : JsonObject.get (createErrorResponse id code message) "id" = .string id := rfl
  have htag : JsonObject.get (createErrorResponse id code message) "jsonrpc" = .string "2.0" := rfl
  have herr : JsonObject.get (createErrorResponse id code message) "error" =
      .object [("code", .double code 0), ("message", .string message)] := rfl
  have hinfo : getJsonErrorInfo (createErrorResponse id code message) = (code, message, .undefined) := by
    have hint : Json.toInt (.double code 0) = code := by
      simp [Json.toInt]
      omega
    have hc : JsonObject.get [("code", .double code 0), ("message", .string message)] "code" = .double code 0 := rfl
    simp only [getJsonErrorInfo, herr, Json.toObject, hc, hint]
    rfl
  simp [answerOf, hget, htag, herr, hinfo, hid, Json.toStringOr, Json.toString, Json.isObject]

/-- **The client reads in a response the request it is for and what the server's call came to.** -/
theorem answerOf_createResponse {id : RequestId} (hid : id ≠ InvalidRequestId) (returnValue : ReturnValue)
    (methodName : String) :
    answerOf (createResponse id returnValue methodName) = some (id, outcomeOf methodName (some returnValue)) := by
  have hresult : ∀ v : Json, v.isUndefined = false →
      answerOf [("jsonrpc", .string "2.0"), ("id", .string id), ("result", v)] = some (id, .success v) := by
    intro v hv
    have hget : JsonObject.get [("jsonrpc", .string "2.0"), ("id", .string id), ("result", v)] "id" = .string id := rfl
    have htag : JsonObject.get [("jsonrpc", .string "2.0"), ("id", .string id), ("result", v)] "jsonrpc" =
        .string "2.0" := rfl
    have herr : JsonObject.get [("jsonrpc", .string "2.0"), ("id", .string id), ("result", v)] "error" =
        .undefined := rfl
    have hres : JsonObject.get [("jsonrpc", .string "2.0"), ("id", .string id), ("result", v)] "result" = v := rfl
    simp [answerOf, hget, htag, herr, hres, hid, hv, Json.toStringOr, Json.toString, Json.isObject]
  cases returnValue with
  | other type => exact answerOf_createErrorResponse hid (by decide) _
  | invalid | list | map | int | double | bool | string => exact hresult _ rfl

section Requests
variable {σ : Type} (convert : String → Json → Option Json) (numberText : Int → Nat → String)
  (srv : JsonRpcServer σ)

/-- The call a request asks for. -/
def dispatchRequest (request : JsonObject) (s : σ) : Option (σ × ReturnValue) :=
  dispatch convert srv (request.get "method").toString (request.get "params") s

/-- **A request is answered once or not at all**: it is when it has the protocol's tag, an id and a known
sender, and the client reads in the answer the id and what the call came to. The services move as the call
says, answered or not, and not without the tag. -/
theorem jsonRequestReceived_spec (client : Bool) (request : JsonObject) (s : σ) :
    let answered := jsonRequestReceived convert numberText srv client request s
    let tagged := (request.get "jsonrpc").toString = "2.0"
    ((answered.2.isSome ↔ tagged ∧ requestIdOf numberText request ≠ InvalidRequestId ∧ client = true) ∧
     ∀ response, answered.2 = some response →
      answerOf response = some (requestIdOf numberText request,
        outcomeOf (request.get "method").toString ((dispatchRequest convert srv request s).map Prod.snd))) ∧
    answered.1 = if tagged then ((dispatchRequest convert srv request s).map Prod.fst).getD s else s := by
  by_cases htag : (request.get "jsonrpc").toString = "2.0"
  · by_cases hid : requestIdOf numberText request = InvalidRequestId
    · cases hd : dispatchRequest convert srv request s with
      | none =>
        simp only [dispatchRequest] at hd
        simp [jsonRequestReceived, htag, hid, hd]
      | some p =>
        simp only [dispatchRequest] at hd
        simp [jsonRequestReceived, htag, hid, hd]
    · cases hd : dispatchRequest convert srv request s with
      | none =>
        simp only [dispatchRequest] at hd
        cases client with
        | false => simp [jsonRequestReceived, htag, hid, hd]
        | true =>
          simp only [jsonRequestReceived, htag, hid, hd, ne_eq, not_true_eq_false, not_false_eq_true, if_false, if_true,
            Option.isSome_some, and_self, true_and, Option.some.injEq, Option.map_none]
          refine ⟨?_, rfl⟩
          rintro response rfl
          exact answerOf_createErrorResponse hid (by decide) _
      | some p =>
        simp only [dispatchRequest] at hd
        cases client with
        | false => simp [jsonRequestReceived, htag, hid, hd]
        | true =>
          simp only [jsonRequestReceived, htag, hid, hd, ne_eq, not_true_eq_false, not_false_eq_true, if_false, if_true,
            Option.isSome_some, and_self, true_and, Option.some.injEq, Option.map_some]
          refine ⟨?_, rfl⟩
          rintro response rfl
          exact answerOf_createResponse hid _ _
  · simp [jsonRequestReceived, htag]

/-! ## Named arguments -/

/-- Fetching all arguments first makes no difference. -/
theorem mapM_bind_zip {α β γ : Type} (f : α → Option β) (g : α → β → Option γ) (l : List α) :
    (l.mapM fun a => (f a).bind (g a)) = (l.mapM f).bind fun bs => (l.zip bs).mapM fun p => g p.1 p.2 := by
  induction l with
  | nil => rfl
  | cons a l ih =>
    simp only [List.mapM_cons, ih]
    cases hf : f a with
    | none => rfl
    | some b =>
      cases hm : l.mapM f with
      | none =>
        cases hg : g a b with
        | none => simp [hg]
        | some c => simp [hg]
      | some bs => simp [List.mapM_cons]

theorem mapM_lookup_of_forall {l : List String} {args : QMap Json} (h : ∀ n ∈ l, n ∈ args) :
    (l.mapM fun n => args.lookup n) = some (l.filterMap args.lookup) ∧ (l.filterMap args.lookup).length = l.length := by
  induction l with
  | nil => exact ⟨rfl, rfl⟩
  | cons n l ih =>
    obtain ⟨v, hv⟩ := Option.isSome_iff_exists.1 (AList.lookup_isSome.2 (h n (by simp)))
    obtain ⟨hm, hlen⟩ := ih fun k hk => h k (by simp [hk])
    refine ⟨?_, ?_⟩
    · rw [List.mapM_cons, hm, hv, List.filterMap_cons, hv]
      rfl
    · rw [List.filterMap_cons, hv, List.length_cons, hlen, List.length_cons]

theorem mapM_lookup_of_not_forall {l : List String} {args : QMap Json} (h : ¬ ∀ n ∈ l, n ∈ args) :
    (l.mapM fun n => args.lookup n) = none := by
  induction l with
  | nil => exact absurd (by simp) h
  | cons n l ih =>
    rw [List.mapM_cons]
    cases hn : args.lookup n with
    | none => rfl
    | some v =>
      have hmem : n ∈ args := AList.lookup_isSome.1 (by simp [hn])
      have hl : ¬ ∀ k ∈ l, k ∈ args := by
        intro hall
        apply h
        intro k hk
        rcases List.mem_cons.1 hk with rfl | hk
        · exact hmem
        · exact hall k hk
      rw [ih hl]
      rfl

/-- The names of a method's parameters. -/
def names (m : MetaMethod σ) : List String := m.parameters.map Parameter.name

/-- Distinct names are the keys of the map, or one of them is missing, or there are too many keys. -/
theorem perm_keys_iff {l : List String} (hl : l.Nodup) (args : QMap Json) :
    args.keys.Perm l ↔ args.keys.length = l.length ∧ ∀ n ∈ l, n ∈ args := by
  constructor
  · intro h
    exact ⟨h.length_eq, fun n hn => AList.mem_keys.2 (h.mem_iff.2 hn)⟩
  · rintro ⟨hlen, hsub⟩
    exact ((List.subperm_of_subset hl hsub).perm_of_length_le (by omega)).symm

/-- **A call with named arguments is the call with these in the order of the parameters, whatever order they
were sent in; any other set of names than the parameters' is refused.** -/
theorem callNamed_eq (m : MetaMethod σ) (hm : (names m).Nodup) (args : QMap Json) (s : σ) :
    callNamed convert m args s =
      if args.keys.Perm (names m) then call convert m ((names m).filterMap args.lookup) s else none := by
  have hfetch : convertNamedArgs convert m args =
      if args.keys.Perm (names m) then convertArgs convert m ((names m).filterMap args.lookup) else none := by
    have hlen : m.parameters.length = (names m).length := by simp [names]
    rw [convertNamedArgs, mapM_bind_zip (fun p : Parameter => args.lookup p.name) (convertArg convert)]
    have hmap : (m.parameters.mapM fun p => args.lookup p.name) = (names m).mapM fun n => args.lookup n := by
      rw [names, List.mapM_map]
      rfl
    rw [hmap, hlen]
    by_cases hp : args.keys.Perm (names m)
    · obtain ⟨hl, hall⟩ := (perm_keys_iff hm args).1 hp
      obtain ⟨hmapM, hfull⟩ := mapM_lookup_of_forall hall
      rw [if_pos hp, if_neg (by simp [hl]), hmapM, convertArgs, if_neg (by rw [hfull, hlen]; simp)]
      rfl
    · rw [if_neg hp]
      by_cases hl : args.keys.length = (names m).length
      · have hall : ¬ ∀ n ∈ names m, n ∈ args := fun h => hp ((perm_keys_iff hm args).2 ⟨hl, h⟩)
        rw [if_neg (by simp [hl]), mapM_lookup_of_not_forall hall]
        rfl
      · rw [if_pos hl]
  rw [callNamed, hfetch]
  by_cases hp : args.keys.Perm (names m)
  · rw [if_pos hp, if_pos hp, call]
  · rw [if_neg hp, if_neg hp]
    rfl

/-- A method of two parameters that returns its arguments. -/
def echo : MetaMethod Unit where
  name := "echo"
  parameters := [⟨"QVariant", "x"⟩, ⟨"QVariant", "y"⟩]
  invoke := fun args s => some (s, .list args)

/-- The arguments come in the order of the parameters, not in theirs. -/
theorem callNamed_echo :
    callNamed (fun _ v => some v) echo (toMap [("y", .double 2 0), ("x", .double 1 0)]) () =
      some ((), .list [.double 1 0, .double 2 0]) := by
  have hperm : (toMap [("y", .double 2 0), ("x", .double 1 0)]).keys.Perm (names echo) := by decide +kernel
  rw [callNamed_eq (fun _ v => some v) echo (by decide), if_pos hperm]
  rfl

/-! ## Namespaces -/

theorem find?_reverse_range {p : Nat → Bool} {n i : Nat} (hi : i < n) (hp : p i = true)
    (hlast : ∀ j, i < j → j < n → p j = false) : (List.range n).reverse.find? p = some i := by
  induction n with
  | zero => omega
  | succ n ih =>
    rw [List.range_succ, List.reverse_append, List.reverse_singleton, List.singleton_append, List.find?_cons]
    by_cases hn : i = n
    · subst hn
      rw [hp]
    · rw [hlast n (by omega) (by omega)]
      exact ih (by omega) fun j hij hj => hlast j hij (by omega)

/-- The last separator is the one before a name that has no character of it. -/
theorem lastIndexOf_append {sep : List Char} (hsep : sep ≠ []) (pre : List Char) {name : List Char}
    (h : ∀ c ∈ sep, c ∉ name) : lastIndexOf sep (pre ++ (sep ++ name)) = some pre.length := by
  have hlen := List.length_pos_of_ne_nil hsep
  apply find?_reverse_range
  · rw [List.length_append]
    omega
  · rw [List.drop_left, List.isPrefixOf_iff_prefix]
    exact List.prefix_append _ _
  · intro j hj _
    rw [← Bool.not_eq_true, List.isPrefixOf_iff_prefix]
    rintro ⟨rest, hrest⟩
    obtain ⟨k, rfl⟩ : ∃ k, j = pre.length + (k + 1) := ⟨j - pre.length - 1, by omega⟩
    rw [← List.drop_drop, List.drop_left] at hrest
    -- a later separator would end in the name
    have hend : name[k]? = sep[sep.length - 1]? := by
      have hget : (sep ++ rest)[sep.length - 1]? = ((sep ++ name).drop (k + 1))[sep.length - 1]? := by rw [hrest]
      rw [List.getElem?_append_left (by omega), List.getElem?_drop,
        List.getElem?_append_right (by omega)] at hget
      rw [hget]
      congr 1
      omega
    rw [List.getElem?_eq_getElem (by omega : sep.length - 1 < sep.length)] at hend
    exact h _ (List.getElem_mem _) (List.mem_of_getElem? hend)

theorem lastIndexOf_eq_none {sep name : List Char} (hsep : sep ≠ []) (h : ∀ c ∈ sep, c ∉ name) :
    lastIndexOf sep name = none := by
  obtain ⟨c, cs, rfl⟩ := List.exists_cons_of_ne_nil hsep
  rw [lastIndexOf, List.find?_eq_none]
  intro j _ hprefix
  rw [List.isPrefixOf_iff_prefix] at hprefix
  have hmem : c ∈ name.drop j := hprefix.subset List.mem_cons_self
  exact h c List.mem_cons_self (List.mem_of_mem_drop hmem)

theorem drop_of_lastIndexOf {sep s : List Char} {i : Nat} (h : lastIndexOf sep s = some i) :
    i ≤ s.length ∧ s = s.take i ++ (sep ++ s.drop (i + sep.length)) := by
  have hmem := List.mem_of_find?_eq_some h
  simp only [List.mem_reverse, List.mem_range] at hmem
  have hprefix := List.find?_some h
  rw [List.isPrefixOf_iff_prefix] at hprefix
  refine ⟨by omega, ?_⟩
  rw [← List.drop_drop, List.prefix_iff_eq_append.1 hprefix, List.take_append_drop]

/-- A method of this namespace and name is looked at for a full name: one without a namespace for its name alone or
after any namespace, another one after its own only. -/
def Bears (separator ns name fullName : String) : Prop :=
  fullName = name ∧ ns = "" ∨
    separator ≠ "" ∧ ∃ pre, pre ≠ "" ∧ fullName = pre ++ (separator ++ name) ∧ (ns = "" ∨ ns = pre)

theorem bears_iff {ns name : String} (hname : ∀ c ∈ srv.nsSeparator.toList, c ∉ name.toList) (fullName : String) :
    ((ns = "" ∨ ns = (srv.namespaceAndMethodName fullName).1) ∧ name = (srv.namespaceAndMethodName fullName).2) ↔
      Bears srv.nsSeparator ns name fullName := by
  by_cases hsep : srv.nsSeparator = ""
  · have heq : srv.namespaceAndMethodName fullName = ("", fullName) := by simp [namespaceAndMethodName, hsep]
    simp only [heq, Bears, hsep, or_self, ne_eq, not_true_eq_false, false_and, or_false]
    tauto
  · have hne : srv.nsSeparator.toList ≠ [] := fun h => hsep (String.toList_eq_nil_iff.1 h)
    have hempty : srv.nsSeparator.isEmpty = false := by simpa using hsep
    constructor
    · intro h
      cases hl : lastIndexOf srv.nsSeparator.toList fullName.toList with
      | none =>
        have heq : srv.namespaceAndMethodName fullName = ("", fullName) := by simp [namespaceAndMethodName, hempty, hl]
        rw [heq, or_self] at h
        exact .inl ⟨h.2.symm, h.1⟩
      | some li =>
        obtain ⟨hle, hfull⟩ := drop_of_lastIndexOf hl
        by_cases hli : li > 0
        · have heq : srv.namespaceAndMethodName fullName = (String.ofList (fullName.toList.take li),
              String.ofList (fullName.toList.drop (li + srv.nsSeparator.length))) := by
            simp [namespaceAndMethodName, hempty, hl, hli]
          rw [heq] at h
          obtain ⟨hns, rfl⟩ := h
          refine .inr ⟨hsep, String.ofList (fullName.toList.take li), ?_, ?_, hns⟩
          · intro hnil
            have htake : fullName.toList.take li = [] := by simpa using congrArg String.toList hnil
            have hlen := congrArg List.length htake
            rw [List.length_take, List.length_nil] at hlen
            omega
          · apply String.toList_inj.1
            rw [String.toList_append, String.toList_append, String.toList_ofList, String.toList_ofList,
              ← String.length_toList]
            exact hfull
        · have heq : srv.namespaceAndMethodName fullName = ("", fullName) := by
            simp [namespaceAndMethodName, hempty, hl, hli]
          rw [heq, or_self] at h
          exact .inl ⟨h.2.symm, h.1⟩
    · rintro (⟨rfl, hns⟩ | ⟨-, pre, hpre, rfl, hns⟩)
      · have hnone := lastIndexOf_eq_none hne hname
        simp [namespaceAndMethodName, hempty, hnone, hns]
      · have hlist : (pre ++ (srv.nsSeparator ++ name)).toList =
            pre.toList ++ (srv.nsSeparator.toList ++ name.toList) := by simp
        have hlast := lastIndexOf_append hne pre.toList hname
        have hpos : pre.toList.length > 0 :=
          List.length_pos_of_ne_nil fun h => hpre (String.toList_eq_nil_iff.1 h)
        have hdrop : (pre.toList ++ (srv.nsSeparator.toList ++ name.toList)).drop
            (pre.toList.length + srv.nsSeparator.length) = name.toList := by
          rw [← List.drop_drop, List.drop_left, ← String.length_toList, List.drop_left]
        simp only [namespaceAndMethodName, hempty, hlist, hlast, if_pos hpos, List.take_left, hdrop, String.ofList_toList]
        exact ⟨hns, rfl⟩

/-- The methods in the order in which `dispatch` goes through them, with their namespaces. -/
def methodsOf : List (String × MetaMethod σ) := srv.services.flatMap fun x => x.methods.map fun m => (x.ns, m)

theorem dispatch_eq_findSome? (fullName : String) (params : Json) (s : σ) :
    dispatch convert srv fullName params s = (methodsOf srv).findSome? fun q =>
      if (q.1 = "" ∨ q.1 = (srv.namespaceAndMethodName fullName).1) ∧ q.2.name = (srv.namespaceAndMethodName fullName).2
      then callParams convert q.2 params s else none := by
  simp only [dispatch, methodsOf]
  generalize srv.namespaceAndMethodName fullName = full
  obtain ⟨ns, name⟩ := full
  induction srv.services with
  | nil => rfl
  | cons x services ih =>
    rw [List.flatMap_cons, List.findSome?_append, ← ih, List.findSome?_map, List.filter_cons]
    by_cases hx : x.ns = "" ∨ x.ns = ns
    · have hmatch : (x.ns.isEmpty || decide (x.ns = ns)) = true := by simpa using hx
      rw [hmatch, if_pos rfl, List.findSome?_cons]
      simp only [Function.comp_def, hx, true_and]
      cases x.methods.findSome? _ <;> rfl
    · have hmatch : (x.ns.isEmpty || decide (x.ns = ns)) = false := by simpa using hx
      have hnone : (x.methods.findSome? ((fun q : String × MetaMethod σ =>
          if (q.1 = "" ∨ q.1 = ns) ∧ q.2.name = name then callParams convert q.2 params s else none) ∘
            fun m => (x.ns, m))) = none := by
        rw [List.findSome?_eq_none_iff]
        intro m _
        simp [hx]
      rw [hmatch, hnone]
      rfl

/-- **Who takes a call**: the first of the methods that bear the full name and accept the arguments. The names of
methods have no character of the separator. -/
theorem dispatch_eq_some_iff (hnames : ∀ q ∈ methodsOf srv, ∀ c ∈ srv.nsSeparator.toList, c ∉ q.2.name.toList)
    (fullName : String) (params : Json) (s : σ) (result : σ × ReturnValue) :
    dispatch convert srv fullName params s = some result ↔
      ∃ before ns m after, methodsOf srv = before ++ (ns, m) :: after ∧ Bears srv.nsSeparator ns m.name fullName ∧
        callParams convert m params s = some result ∧
        ∀ q ∈ before, Bears srv.nsSeparator q.1 q.2.name fullName → callParams convert q.2 params s = none := by
  rw [dispatch_eq_findSome?, List.findSome?_eq_some_iff]
  constructor
  · rintro ⟨before, ⟨ns, m⟩, after, hsplit, hm, hbefore⟩
    rw [Option.ite_none_right_eq_some, bears_iff srv (hnames (ns, m) (by simp [hsplit]))] at hm
    refine ⟨before, ns, m, after, hsplit, hm.1, hm.2, ?_⟩
    intro q hq hbears
    have hnone := hbefore q hq
    rwa [if_pos ((bears_iff srv (hnames q (by simp [hsplit, hq])) fullName).2 hbears)] at hnone
  · rintro ⟨before, ns, m, after, hsplit, hbears, hm, hbefore⟩
    refine ⟨before, (ns, m), after, hsplit, ?_, ?_⟩
    · rw [if_pos ((bears_iff srv (hnames (ns, m) (by simp [hsplit])) fullName).2 hbears)]
      exact hm
    · intro q hq
      rw [ite_eq_right_iff, bears_iff srv (hnames q (by simp [hsplit, hq]))]
      exact hbefore q hq

/-- Two services with a method of one name, the first one in a namespace. -/
def chatAndCore : JsonRpcServer Unit where
  services := [⟨"chat", [echo]⟩, ⟨"", [echo]⟩]
  nsSeparator := "/"

/-- A call into another namespace is taken by the service without one. -/
theorem dispatch_game_echo :
    dispatch (fun _ v => some v) chatAndCore "game/echo" (.array [.null, .null]) () =
      some ((), .list [.null, .null]) := by
  have hslash : ("/" : String).toList = ['/'] := by decide
  refine (dispatch_eq_some_iff (fun _ v => some v) chatAndCore ?_ _ _ _ _).2
    ⟨[("chat", echo)], "", echo, [], rfl, .inr ⟨by decide, "game", by decide, by decide, .inl rfl⟩, rfl, ?_⟩
  · intro q hq c hc
    have hecho : q.2 = echo := by
      simp only [methodsOf, chatAndCore, List.flatMap_cons, List.flatMap_nil, List.map_cons, List.map_nil] at hq
      aesop
    rw [hecho]
    simp only [chatAndCore, hslash, List.mem_singleton] at hc
    subst hc
    decide
  · intro q hq hbears
    exfalso
    rw [List.mem_singleton] at hq
    subst hq
    rcases hbears with ⟨-, hempty⟩ | ⟨-, pre, -, hfull, hns⟩
    · exact absurd hempty (by decide)
    · rcases hns with hempty | rfl
      · exact absurd hempty (by decide)
      · exact absurd hfull (by decide)

end Requests

end JsonRpcServer

end SegsLauncher
