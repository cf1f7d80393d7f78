import A2AEvents.Native.Publisher
import A2AEvents.Native.Values

/-!
# Requests about one subscription

`jsonrpc.py` for the methods that renew, replay and ack, and the routes of `server.py` that call
them. The parameters of a request are JSON values of any type: what the publisher does with a text,
and with a number of seconds, is in `Publisher`; what it does with other values is here.

Floats are parameters, and so are `str` of values that are no texts and the lookup of an id that is
none: a store raises there or finds nothing. The numbers of error codes and the statuses that belong
to them are left out.
-/

namespace A2AEvents

open Async

/-- What the publisher does with values that are not of the declared types. -/
structure RpcLib where
  str : Json → String
  lookupOther : Json → Except PyError Unit
  /-- `f < i` -/
  floatLt : PyFloat → Int → Bool
  /-- `f > i` -/
  floatGt : PyFloat → Int → Bool
  /-- `timedelta(seconds=f)` -/
  timedelta : PyFloat → Except PyError Time
  /-- The least number of events that is not below `f`. -/
  floatLimit : PyFloat → Int

/-- What a method returns, dumped to JSON by the server: a subscription, possibly with its delivery
    credential, or a page of events. -/
inductive RpcResult where
  | subscription (sub : Subscription) (auth : Option Json)
  | page (subscriptionId : Json) (events : List Json) (nextCursor : Option String)

/-- The response to a request. -/
inductive RpcResponse where
  | result (value : RpcResult)
  | error (err : A2AEventsError)
  | invalidParams (message : String)

namespace Publisher

variable (lib : RpcLib) (cfg : PublisherConfig)

/-! ## Arguments of any type -/

/-- `_check_lease`, and the duration that is added to the clock later. -/
def checkLeaseRaw : Json → Except PyError (Except PyError Time)
  | .int i => (checkLease cfg i).map fun _ => .ok (seconds i)
  | .bool b =>
    let i : Int := if b then 1 else 0
    (checkLease cfg i).map fun _ => .ok (seconds i)
  | .float f =>
    if lib.floatLt f cfg.minLeaseSeconds then
      raiseA2A .leaseTooShort ("Lease must be >= " ++ toString cfg.minLeaseSeconds ++ "s.")
        [("minLeaseSeconds", .int cfg.minLeaseSeconds)]
    else if lib.floatGt f cfg.maxLeaseSeconds then
      raiseA2A .leaseTooLong ("Lease must be <= " ++ toString cfg.maxLeaseSeconds ++ "s.")
        [("maxLeaseSeconds", .int cfg.maxLeaseSeconds)]
    else .ok (lib.timedelta f)
  | _ => .error (.typeError "'<' not supported between instances")

/-- The lookup of an id that is no text: there is no such subscription. -/
def getOther (subscriptionId : Json) : Except PyError Handle := do
  lib.lookupOther subscriptionId
  raiseA2A .subscriptionNotFound ("Subscription " ++ lib.str subscriptionId ++ " not found.")
    [("subscriptionId", subscriptionId)]

def getSubscriptionRaw : Json → M Handle
  | .str subscriptionId => getSubscription subscriptionId
  | v => orRaise (getOther lib v)

def getActiveSubscriptionRaw : Json → M Handle
  | .str subscriptionId => getActiveSubscription subscriptionId
  | v => orRaise (getOther lib v)

/-! ## Methods from the subscription on -/

/-- `renew` -/
def renewOn (delta : Except PyError Time) (h : Handle) : M Subscription := do
  let now ← perform .now
  let delta ← orRaise delta
  let h ← perform (.assign h (.leaseUntil (now + delta)))
  let h ← perform (.assign h (.status .active))
  let h ← perform (.update h)
  pure h.sub

/-- `ack` of a text -/
def ackOn (cursor : String) (h : Handle) : M Subscription := do
  let topic ← orRaise (Cursor.topicOf cursor)
  if topic ∉ h.sub.topics then orRaise (topicNotAuthorized topic)
  else do
    let h ← advance h topic cursor none
    pure h.sub

/-- `ack`. Only texts can be split into topic and offset. -/
def ackOnRaw (cursor : Json) (h : Handle) : M Subscription :=
  match cursor with
  | .str cursor => ackOn cursor h
  | _ => orRaise (.error (.other "AttributeError"))

/-- A cursor that `read` starts at, if it is one. -/
def fromCursorArg : Json → Option (Option String)
  | .null => some none
  | .str s => some (some s)
  | _ => none

/-- A cursor that `read` ends at, if it is one. Falsy values are no bound. -/
def toCursorArg : Json → Option (Option String)
  | .str s => some (some s)
  | v => if v.truthy then none else some none

/-- A limit, if it is a number. -/
def limitArg : Json → Option Int
  | .int i => some i
  | .bool b => some (if b then 1 else 0)
  | .float f => some (lib.floatLimit f)
  | _ => none

/-- `replayTopic`, for any value. -/
def replayTopicRaw (sub : Subscription) : Json → Except PyError String
  | .str fromCursor => replayTopic sub (some fromCursor)
  | v => if v.truthy then .error (.other "AttributeError") else replayTopic sub none

/-- `read`, for any values. The first argument is looked at first, the limit not before there is an
    event. -/
def readRaw (topic : String) (fromCursor toCursor limit : Json) : M (List EventRecord × Option String) :=
  match fromCursorArg fromCursor, toCursorArg toCursor, limitArg lib limit with
  | none, _, _ => orRaise (.error (.other "AttributeError"))
  | some from_, some to_, some n => do
    let page ← perform (.read topic from_ to_ n)
    orRaise page
  | some from_, some to_, none => do
    let (records, _) ← orRaise (← perform (.read topic from_ to_ 1))
    if records.isEmpty then pure ([], none) else orRaise (.error (.typeError "'>=' not supported between instances"))
  | some from_, none, _ => do
    let _ ← orRaise (← perform (.read topic from_ none 1))
    if from_ = some Cursor.latest then pure ([], none) else orRaise (.error (.other "AttributeError"))

/-- `replay` -/
def replayOnRaw (fromCursor toCursor limit : Json) (h : Handle) : M (List Json × Option String) := do
  let topic ← orRaise (replayTopicRaw h.sub fromCursor)
  if topic ∉ h.sub.topics then orRaise (topicNotAuthorized topic)
  else do
    let topicModel ← getTopic topic
    if topicModel.replay = false then
      orRaise (raiseA2A .replayNotSupported ("Topic " ++ topic ++ " does not support replay.")
        [("topic", .str topic)])
    else do
      let (records, next) ← readRaw lib topic fromCursor toCursor limit
      let events ← orRaise (replayEvents cfg h.sub topicModel records)
      pure (events, next)

/-- The delivery credential of a subscription. -/
def deliveryAuth (sub : Subscription) : Option Json :=
  cfg.deliveryTokenIssuer.map fun issue =>
    .obj [("scheme", .str "bearer"), ("token", .str (issue sub.subscriptionId)),
      ("expiresAt", .str (cfg.isoformat sub.leaseUntil)), ("rotates", .bool true)]

/-! ## Dispatch -/

/-- The routes about one subscription, each of which calls the method of its name. -/
inductive Route where
  | renew
  | replay
  | ack
  deriving DecidableEq

/-- `params[key]` -/
def param (params : List (String × Json)) (key : String) : Except PyError Json :=
  match Json.member? key params with
  | some v => .ok v
  | none => .error (.keyError key)

/-- `params.get(key, default)` -/
def paramD (params : List (String × Json)) (key : String) (default : Json) : Json :=
  (Json.member? key params).getD default

/-- `_dispatch` -/
def dispatch (params : List (String × Json)) : Route → M RpcResult
  | .renew => do
    let subscriptionId ← orRaise (param params "subscriptionId")
    let leaseSeconds ← orRaise (param params "leaseSeconds")
    let delta ← orRaise (checkLeaseRaw lib cfg leaseSeconds)
    let h ← getSubscriptionRaw lib subscriptionId
    let sub ← renewOn delta h
    pure (.subscription sub (deliveryAuth cfg sub))
  | .replay => do
    let subscriptionId ← orRaise (param params "subscriptionId")
    let h ← getActiveSubscriptionRaw lib subscriptionId
    let (events, next) ← replayOnRaw lib cfg (paramD params "fromCursor" .null) (paramD params "toCursor" .null)
      (paramD params "limit" (.int 100)) h
    pure (.page subscriptionId events next)
  | .ack => do
    let subscriptionId ← orRaise (param params "subscriptionId")
    let cursor ← orRaise (param params "cursor")
    let h ← getActiveSubscriptionRaw lib subscriptionId
    let sub ← ackOnRaw cursor h
    pure (.subscription sub none)

/-- The exceptions that become responses; others are the server's. -/
def respond : Except PyError RpcResult → Except PyError RpcResponse
  | .ok value => .ok (.result value)
  | .error (.a2a err) => .ok (.error err)
  | .error (.keyError key) => .ok (.invalidParams ("Invalid params: " ++ repr key))
  | .error (.typeError message) => .ok (.invalidParams ("Invalid params: " ++ message))
  | .error (.valueError message) => .ok (.invalidParams ("Invalid params: " ++ message))
  | .error e => .error e

/-- `handle` -/
def handle (params : List (String × Json)) (route : Route) : M RpcResponse := do
  let outcome ← (dispatch lib cfg params route).attempt
  orRaise (respond outcome)

/-- `{"subscriptionId": subscription_id, **body}` -/
def routeParams (subscriptionId : String) (body : List (String × Json)) : List (String × Json) :=
  ("subscriptionId", paramD body "subscriptionId" (.str subscriptionId)) ::
    body.filter fun m => m.1 ≠ "subscriptionId"

/-- `http_renew`, `http_replay` and `http_ack` -/
def httpRoute (route : Route) (subscriptionId : String) (body : List (String × Json)) : M RpcResponse :=
  handle lib cfg (routeParams subscriptionId body) route

end Publisher

end A2AEvents
