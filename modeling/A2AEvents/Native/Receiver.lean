import A2AEvents.Native.Publisher
import A2AEvents.Native.Values

/-!
# Event receiver

`receiver.py`: verify the signature of an event, deduplicate it by its id, run the handler
of the user, and answer with a `DeliveryResult`. A call suspends at most once, while the key is
resolved; `beginAccept` is the code up to there, `finishAccept` the code from there on. `receive`
takes the requests of both delivery modes apart.

`datetime.fromisoformat` is a parameter.
-/

namespace A2AEvents

/-! ## Configuration and state -/

/-- What `datetime.fromisoformat` returns: the wall time and its offset from UTC, if it has one. -/
structure ParsedTime where
  wall : Time
  utcOffset : Option Time

/-- The settings of an `EventReceiver`; `fromIsoformat` gives nothing where it raises `ValueError`. -/
structure ReceiverConfig where
  maxSkew : Option Time := some (seconds 300)
  fromIsoformat : String → Option ParsedTime

/-- The state of an `EventReceiver`. -/
structure Receiver where
  received : List Json := []
  seen : List Json := []
  deliveryTokens : Dict String String := ∅

/-- The arguments of one call. -/
structure Delivery where
  event : Json
  keyId : String
  timestamp : String
  signature : String
  deliveryToken : Option String := none

/-! ## The checks -/

/-- Whether the token registered for the subscription was presented. -/
def Receiver.deliveryTokenOk (r : Receiver) (subscriptionId : Json) (presented : Option String) :
    Except PyError Bool :=
  match subscriptionId with
  | .null => .ok true
  | .str id =>
    match r.deliveryTokens.get? id with
    | none => .ok true
    | some token => .ok (presented = some token)
  | v => v.hash.map fun _ => true

/-- Whether the timestamp is close enough to the clock. Times without an offset are UTC. -/
def ReceiverConfig.withinSkew (cfg : ReceiverConfig) (now : Time) (timestamp : String) : Bool :=
  match cfg.maxSkew with
  | none => true
  | some bound =>
    match cfg.fromIsoformat timestamp with
    | none => false
    | some ts => (now - (ts.wall - ts.utcOffset.getD 0)).natAbs ≤ bound

/-- A permanent failure. -/
def nack (statusCode : Int) (reason : String) : DeliveryResult :=
  { ack := false, retry := false, statusCode := some statusCode, reason := some reason }

/-! ## Accepting -/

/-- `accept` up to the key: there may be a result already. -/
def Receiver.beginAccept (r : Receiver) (d : Delivery) : Except PyError (Option DeliveryResult) := do
  let subscriptionId ← d.event.getKey "a2asubscription"
  let ok ← r.deliveryTokenOk subscriptionId d.deliveryToken
  pure (if ok then none else some (nack 401 "bad delivery token"))

/-- Keep an event. -/
def Receiver.keep (r : Receiver) (event eventId : Json) : Receiver :=
  { r with received := r.received ++ [event], seen := r.seen ++ [eventId] }

/-- The handler of the user may answer in place of the receiver; `onEvent` is what it does with the
    event, if there is a handler. -/
def Receiver.handleEvent (r : Receiver) (event eventId : Json)
    (onEvent : Option (Except PyError (Option DeliveryResult))) : Except PyError DeliveryResult × Receiver :=
  match onEvent with
  | some (.error e) => (.error e, r)
  | some (.ok (some override)) => (.ok override, if override.ack then r.keep event eventId else r)
  | some (.ok none) | none => (.ok { ack := true, statusCode := some 204 }, r.keep event eventId)

/-- `accept` from the key on. -/
def Receiver.finishAccept (cfg : ReceiverConfig) (r : Receiver) (d : Delivery) (key : Except PyError PublicKey)
    (now : Time) (onEvent : Option (Except PyError (Option DeliveryResult))) :
    Except PyError DeliveryResult × Receiver :=
  match key with
  | .error (.keyError _) => (.ok (nack 401 "unknown signing key"), r)
  | .error e => (.error e, r)
  | .ok publicKey =>
    match verify publicKey d.timestamp d.event d.signature with
    | .error e => (.error e, r)
    | .ok false => (.ok (nack 401 "bad signature"), r)
    | .ok true =>
      if cfg.withinSkew now d.timestamp = false then (.ok (nack 403 "timestamp out of skew"), r)
      else
        match d.event.getKey "id" with
        | .error e => (.error e, r)
        | .ok eventId =>
          if eventId.truthy = false then (.ok (nack 400 "event has no id"), r)
          else
            match eventId.hash with
            | .error e => (.error e, r)
            | .ok () =>
              if r.seen.any (fun other => eventId.pyEq other) then
                (.ok { ack := true, statusCode := some 200 }, r)
              else r.handleEvent d.event eventId onEvent

/-- A call of `accept` that nothing interrupts; `resolveKey` is the key resolver. -/
def Receiver.accept (cfg : ReceiverConfig) (r : Receiver) (resolveKey : String → Except PyError PublicKey)
    (d : Delivery) (now : Time) (onEvent : Option (Except PyError (Option DeliveryResult))) :
    Except PyError DeliveryResult × Receiver :=
  match r.beginAccept d with
  | .error e => (.error e, r)
  | .ok (some result) => (.ok result, r)
  | .ok none => r.finishAccept cfg d (resolveKey d.keyId) now onEvent

/-! ## Framing -/

/-- `str.isspace` of a character. -/
def isSpace (c : Char) : Bool :=
  let n := c.toNat
  (9 ≤ n && n ≤ 13) || (28 ≤ n && n ≤ 32) || n = 0x85 || n = 0xa0 || n = 0x1680 || (0x2000 ≤ n && n ≤ 0x200a) ||
    n = 0x2028 || n = 0x2029 || n = 0x202f || n = 0x205f || n = 0x3000

/-- `text.lower()` of a header or scheme name; these are ASCII. -/
def lowerName (name : String) : String := String.ofList (name.toList.map Char.toLower)

/-- The token of an `Authorization` header, if its scheme is `bearer`. -/
def bearerToken (auth : String) : Option String :=
  let scheme := auth.toList.takeWhile (· ≠ ' ')
  let token := (auth.toList.dropWhile (· ≠ ' ')).drop 1
  if lowerName (String.ofList scheme) = "bearer" then
    some (String.ofList ((token.dropWhile isSpace).reverse.dropWhile isSpace).reverse)
  else none

/-- The arguments in a webhook request. -/
def Delivery.ofWebhook (headers : List (String × String)) (body : Json) : Delivery :=
  let h := Dict.ofList (headers.map fun header => (lowerName header.1, header.2))
  { event := body
    keyId := h.getD "a2a-event-key-id" ""
    timestamp := h.getD "a2a-event-timestamp" ""
    signature := h.getD "a2a-event-signature" ""
    deliveryToken := bearerToken (h.getD "authorization" "") }

/-- `value[key]` where the value is a dict that has the key. -/
def Json.item? (key : String) : Json → Option Json
  | .obj members => Json.member? key members
  | _ => none

/-- The event and the metadata in a message, if it is a delivery envelope. -/
def deliveryEnvelope (message : Json) : Option (Json × Json) :=
  match message.item? "message" with
  | none => none
  | some msg =>
    match msg.item? "parts", (msg.item? "metadata").bind (Json.item? extensionUri) with
    | some (.arr (part :: _)), some metadata => (part.item? "data").map fun event => (event, metadata)
    | _, _ => none

/-- `metadata.get(key)`. Values are texts or missing; others raise here, whatever comes of them there. -/
def metadataText (metadata : Json) (key : String) : Except PyError (Option String) :=
  match metadata with
  | .obj members =>
    match Json.member? key members with
    | none => .ok none
    | some (.str s) => .ok (some s)
    | some _ => .error (.typeError key)
  | _ => .error (.other "AttributeError")

/-- The arguments in a message. -/
def Delivery.ofMessage (event metadata : Json) : Except PyError Delivery := do
  let keyId ← metadataText metadata "keyId"
  let timestamp ← metadataText metadata "timestamp"
  let signature ← metadataText metadata "signature"
  let deliveryToken ← metadataText metadata "deliveryToken"
  pure { event, keyId := keyId.getD "", timestamp := timestamp.getD "", signature := signature.getD "", deliveryToken }

/-- Take a request of either delivery mode; `accept_webhook` and `accept_a2a_message`. -/
def Receiver.receive (cfg : ReceiverConfig) (r : Receiver) (resolveKey : String → Except PyError PublicKey)
    (now : Time) (onEvent : Option (Except PyError (Option DeliveryResult))) :
    Frame → Except PyError DeliveryResult × Receiver
  | .webhook _ headers body => r.accept cfg resolveKey (.ofWebhook headers body) now onEvent
  | .a2aMessage _ message =>
    match deliveryEnvelope message with
    | none => (.ok (nack 400 "malformed envelope"), r)
    | some (event, metadata) =>
      match Delivery.ofMessage event metadata with
      | .error e => (.error e, r)
      | .ok d => r.accept cfg resolveKey d now onEvent

/-! ## Concurrent calls -/

/-- A receiver with the calls that wait for their keys, and those that have ended. -/
structure Reception where
  receiver : Receiver
  waiting : List Delivery := []
  finished : List (Delivery × Except PyError DeliveryResult) := []

/-- A call begins, or goes on with the key that was resolved for it. -/
inductive Reception.Move where
  | accept (d : Delivery)
  | resolved (i : Nat) (key : Except PyError PublicKey) (now : Time)
      (onEvent : Option (Except PyError (Option DeliveryResult)))

namespace Reception

/-- A call has ended. -/
def finish (s : Reception) (d : Delivery) (result : Except PyError DeliveryResult) : Reception :=
  { s with finished := s.finished ++ [(d, result)] }

/-- One uninterrupted piece of a call. -/
def step (cfg : ReceiverConfig) (s : Reception) : Move → Reception
  | .accept d =>
    match s.receiver.beginAccept d with
    | .error e => s.finish d (.error e)
    | .ok (some result) => s.finish d (.ok result)
    | .ok none => { s with waiting := s.waiting ++ [d] }
  | .resolved i key now onEvent =>
    match s.waiting[i]? with
    | none => s
    | some d =>
      let r := s.receiver.finishAccept cfg d key now onEvent
      finish { s with receiver := r.2, waiting := s.waiting.eraseIdx i } d r.1

/-- Any interleaving of calls, over a receiver with some registered tokens. -/
def run (cfg : ReceiverConfig) (tokens : Dict String String) (moves : List Move) : Reception :=
  moves.foldl (step cfg) { receiver := { deliveryTokens := tokens } }

end Reception

end A2AEvents
