import A2AEvents.Native.Selectors
import A2AEvents.Native.World

/-!
# The publisher

`runtime/publisher.py` and `runtime/retry_worker.py` as programs over the calls of
`A2AEvents.Native.World`, method by method. A method that changes fields of a
subscription object passes the object on to what follows.

The `while True` of `_catch_up` is unrolled `fuel` times and diverges after that:
a program that has run out of fuel makes no further step and gives no answer.

Metrics are left out; nothing reads them.
-/

namespace A2AEvents

open Async

/-- Bounds on selector size. -/
structure SelectorLimits where
  maxKeywords : Nat := 50
  maxKeywordLength : Nat := 256
  maxFields : Nat := 50
  maxValuesPerField : Nat := 100

namespace SelectorLimits

def checkKeywords (limits : SelectorLimits) : List String → Except PyError Unit
  | [] => .ok ()
  | kw :: rest =>
    if kw.length > limits.maxKeywordLength then
      raiseA2A .invalidSelector ("Keyword exceeds the maximum length of " ++
        toString limits.maxKeywordLength ++ " characters.")
        [("maxKeywordLength", .int limits.maxKeywordLength)]
    else checkKeywords limits rest

def checkFields (limits : SelectorLimits) : List (String × List Json) → Except PyError Unit
  | [] => .ok ()
  | (field, values) :: rest =>
    if values.length > limits.maxValuesPerField then
      raiseA2A .invalidSelector ("Field " ++ field ++ " exceeds the maximum of " ++
        toString limits.maxValuesPerField ++ " values.")
        [("field", .str field), ("maxValuesPerField", .int limits.maxValuesPerField)]
    else checkFields limits rest

def check (limits : SelectorLimits) (selector : Option Selector) : Except PyError Unit :=
  match selector with
  | none => .ok ()
  | some (.keywordSearch keywords ..) =>
    if keywords.length > limits.maxKeywords then
      raiseA2A .invalidSelector ("Selector exceeds the maximum of " ++
        toString limits.maxKeywords ++ " keywords.") [("maxKeywords", .int limits.maxKeywords)]
    else limits.checkKeywords keywords
  | some (.fieldFilter where_) =>
    if where_.entries.length > limits.maxFields then
      raiseA2A .invalidSelector ("Selector exceeds the maximum of " ++
        toString limits.maxFields ++ " fields.") [("maxFields", .int limits.maxFields)]
    else limits.checkFields where_.entries

end SelectorLimits

/-- The configuration of a publisher. `isoformat` is the serialization of times in
    events, `lower` the case map of keyword search, `checkEndpoint` the policy for
    delivery endpoints; delays are in microseconds. -/
structure PublisherConfig where
  agentCardUrl : String
  source : String
  signingKey : SigningKey
  cardResolver : String → Except PyError SubscriberCard
  checkEndpoint : String → Except PyError Unit
  isoformat : Time → String
  lower : Char → Char
  minLeaseSeconds : Int := 60
  maxLeaseSeconds : Int := 604800
  maxAttempts : Int := 3
  retryInitialDelay : Time := 1000000
  retryMaxDelay : Time := 300000000
  deliveryTokenIssuer : Option (String → String) := none
  retryQueue : Bool := false
  rateLimiter : Bool := false
  selectorLimits : Option SelectorLimits := none
  maxSubscriptionsPerSubscriber : Option Nat := none
  pageSize : Int := 100
  deferredDispatch : Bool := false

/-- Programs of the publisher. -/
abbrev M (α : Type) := Prog sig α

/-- Perform a call. -/
def perform (o : Op) : M o.Res := Prog.call (S := sig) o

/-- A computation that may raise. -/
def orRaise {α : Type} (x : Except PyError α) : M α := Prog.lift x

namespace Publisher

/-- Deterministic trace id of an event. -/
def traceIdFor (eventId : String) : String := "tr_" ++ stripPrefix "evt_" eventId

/-- The shape that selectors resolve against. -/
def rawEventDict (record : EventRecord) : Json :=
  .obj [("type", .str record.eventType),
    ("subject", match record.subject with
      | some s => .str s
      | none => .null),
    ("data", .obj record.data)]

variable (cfg : PublisherConfig)

/-- The CloudEvent of a record, dumped without its absent attributes. -/
def buildEvent (sub : Subscription) (record : EventRecord) (attempt : Nat)
    (schemaUrl : Option String) : Json :=
  let optional := fun (key : String) (value : Option String) => match value with
    | some v => [(key, Json.str v)]
    | none => []
  .obj ([("specversion", .str "1.0"), ("id", .str record.eventId), ("source", .str record.source),
      ("type", .str record.eventType)] ++ optional "subject" record.subject ++
    [("time", .str (cfg.isoformat record.createdAt)), ("datacontenttype", .str "application/json"),
      ("data", .obj record.data), ("a2aextension", .str extensionUri),
      ("a2apublisher", .str cfg.agentCardUrl), ("a2atopic", .str record.topic),
      ("a2acursor", .str record.cursor)] ++ optional "a2aschemaurl" schemaUrl ++
    [("a2asubscription", .str sub.subscriptionId), ("a2adeliveryattempt", .int attempt),
      ("a2atraceid", .str (traceIdFor record.eventId))])

/-- Frame a signed event for the delivery mode of the subscription. -/
def frameDelivery (sub : Subscription) (event : Json) (signature timestamp messageHex : String) :
    Frame :=
  let token := cfg.deliveryTokenIssuer.map fun issue => issue sub.subscriptionId
  match sub.delivery.mode with
  | .webhook =>
    .webhook (sub.delivery.resolvedUrl.getD "")
      ([("A2A-Event-Signature", signature), ("A2A-Event-Timestamp", timestamp),
        ("A2A-Event-Key-ID", cfg.signingKey.kid), ("A2A-Subscription-ID", sub.subscriptionId)] ++
        match token with
        | some t => [("Authorization", "Bearer " ++ t)]
        | none => [])
      event
  | .a2aMessage =>
    let metadata : Json := .obj ([("kind", .str "event.delivery"), ("signature", .str signature),
      ("timestamp", .str timestamp), ("keyId", .str cfg.signingKey.kid),
      ("subscriptionId", .str sub.subscriptionId)] ++
      match token with
      | some t => [("deliveryToken", .str t)]
      | none => [])
    .a2aMessage (sub.delivery.resolvedEndpoint.getD "")
      (.obj [("message", .obj [("messageId", .str ("msg_" ++ messageHex)), ("role", .str "ROLE_AGENT"),
        ("parts", .arr [.obj [("data", event)]]), ("metadata", .obj [(extensionUri, metadata)])])])

/-- Exponential backoff before attempt `attempt + 1`. The initial delay is a float and
    the power of two is converted to one before it is capped: from `2 ^ 1024` on that
    raises. -/
def backoffDelay (attempt : Nat) : Except PyError Time :=
  if attempt - 1 < 1024 then .ok (min (cfg.retryInitialDelay * 2 ^ (attempt - 1)) cfg.retryMaxDelay)
  else .error (.other "OverflowError")

/-! ## Topics and subscription objects -/

/-- Fetch a topic config, memoizing it. -/
def getTopic (name : String) : M Topic := do
  match ← perform (.cachedTopic name) with
  | some topic => pure topic
  | none => do
    let topic ← orRaise (← perform (.getTopic name))
    perform (.cacheTopic name topic)
    pure topic

/-- Expire a lapsed lease in place; also tells whether the status changed. -/
def expireIfDue (h : Handle) : M (Bool × Handle) := do
  let h ← perform (.deref h)
  let now ← perform .now
  if h.sub.status = .active ∧ h.sub.leaseUntil ≤ now then do
    let h ← perform (.assign h (.status .expired))
    pure (true, h)
  else pure (false, h)

/-- Expire a lapsed lease and persist that. -/
def expireAndPersist (h : Handle) : M Handle := do
  let (changed, h) ← expireIfDue h
  if changed then perform (.update h) else pure h

def isActive (h : Handle) : M (Bool × Handle) := do
  let h ← expireAndPersist h
  let h ← perform (.deref h)
  pure (h.sub.status = .active, h)

def subscriptionNotFound {α : Type} (subscriptionId : String) : Except PyError α :=
  raiseA2A .subscriptionNotFound ("Subscription " ++ subscriptionId ++ " not found.")
    [("subscriptionId", .str subscriptionId)]

def getSubscription (subscriptionId : String) : M Handle := do
  match ← perform (.get subscriptionId) with
  | none => orRaise (subscriptionNotFound subscriptionId)
  | some h =>
    if h.sub.status = .deleted then orRaise (subscriptionNotFound subscriptionId)
    else expireAndPersist h

/-- Like `getSubscription`, but an expired lease is an error. -/
def getActiveSubscription (subscriptionId : String) : M Handle := do
  let h ← getSubscription subscriptionId
  let h ← perform (.deref h)
  if h.sub.status ≠ .active then
    orRaise (raiseA2A .subscriptionExpired
      ("Subscription " ++ subscriptionId ++ " has expired; renew it first.")
      [("subscriptionId", .str subscriptionId)])
  else pure h

/-- Expire what is due among the listed subscriptions. -/
def expireAll : List Handle → M (List Handle)
  | [] => pure []
  | h :: rest => do
    let h ← expireAndPersist h
    let hs ← expireAll rest
    pure (h :: hs)

/-- Read the current fields of the listed objects. -/
def derefAll : List Handle → M (List Handle)
  | [] => pure []
  | h :: rest => do
    let h ← perform (.deref h)
    let hs ← derefAll rest
    pure (h :: hs)

def listSubscriptions : M (List Handle) := do
  let hs ← perform .listAll
  let hs ← expireAll hs
  let hs ← derefAll hs
  pure (hs.filter fun h => h.sub.status ≠ .deleted)

/-! ## Reading the log -/

/-- The cursor of a position; there is none before the first event. -/
def cursorAt (topic : String) (position : Int) : Except PyError (Option String) :=
  if position ≥ 0 then (Cursor.encode topic position).map some else .ok none

/-- The first record, if it has the wanted offset. -/
def recordWith (offset : Nat) : List EventRecord → Except PyError (Option EventRecord)
  | [] => .ok none
  | record :: _ => (Cursor.offsetOf record.cursor).map fun o => if o = offset then some record else none

/-- The single event record at a cursor, if it is still there. -/
def recordAt (topic cursor : String) : M (Option EventRecord) := do
  let offset ← orRaise (Cursor.offsetOf cursor)
  let fromCursor ← orRaise (cursorAt topic ((offset : Int) - 1))
  match ← perform (.read topic fromCursor (some cursor) 1) with
  | .ok (records, _) => orRaise (recordWith offset records)
  | .error (.a2a err) =>
    if err.code ≠ .cursorExpired then pure none
    else do
      -- The predecessor aged out of retention; the event itself may be the oldest live one.
      match ← perform (.read topic none (some cursor) 1) with
      | .ok (records, _) => orRaise (recordWith offset records)
      | .error (.a2a _) => pure none
      | .error e => orRaise (.error e)
  | .error e => orRaise (.error e)

/-- The offset of the head of a topic. -/
def headOffset (topic : String) : M Int := do
  let n ← perform (.count topic)
  if n = 0 then pure (-1)
  else do
    let latest ← orRaise (← perform (.latestCursor topic))
    let offset ← orRaise (Cursor.offsetOf latest)
    pure offset

/-- The initial position of a subscription in a topic. -/
def startOffset (topic fromCursor : String) : M Int := do
  if fromCursor = Cursor.earliest then pure (-1)
  else if fromCursor = Cursor.latest then headOffset topic
  else do
    let cursorTopic ← orRaise (Cursor.topicOf fromCursor)
    if cursorTopic = topic then do
      -- the cursor has to be inside of retention
      let _ ← orRaise (← perform (.read topic (some fromCursor) (some fromCursor) 1))
      let offset ← orRaise (Cursor.offsetOf fromCursor)
      pure offset
    else
      -- a cursor is scoped to one topic; the others start at their heads
      headOffset topic

/-! ## Delivery -/

/-- Build, sign and send one delivery attempt. -/
def attemptSend (h : Handle) (record : EventRecord) (attempt : Nat) : M DeliveryResult := do
  let topicModel ← getTopic record.topic
  let event := buildEvent cfg h.sub record attempt topicModel.schemaUrl
  let timestamp := cfg.isoformat record.createdAt
  let signature ← orRaise (cfg.signingKey.sign timestamp event)
  let hex ← perform .uuid
  let frame := frameDelivery cfg h.sub event signature timestamp hex
  orRaise (← perform (.send h.sub record attempt frame))

def recordAttempt (h : Handle) (record : EventRecord) (attempt : Nat) (status : AttemptStatus)
    (result : DeliveryResult) : M Unit := do
  let hex ← perform .uuid
  perform (.recordAttempt
    { deliveryAttemptId := "da_" ++ hex
      subscriptionId := h.sub.subscriptionId
      eventId := record.eventId
      cursor := record.cursor
      attempt := attempt
      status := status
      lastStatusCode := result.statusCode
      lastError := result.reason })

/-- Raise the dispatch position to `offset` unless it is there already. -/
def raiseHighWater (subscriptionId topic : String) (offset : Int) : M Unit := do
  let highWater ← perform (.highWater subscriptionId)
  if offset > highWater.getD topic (-1) then perform (.setHighWater subscriptionId topic offset)
  else pure ()

/-- Whether a cursor goes beyond the acked one, as texts. -/
def isNewer (cursor : String) : Option String → Bool
  | none => true
  | some current => current < cursor

/-- Advance the acked cursor of a topic. -/
def advanceCursor (h : Handle) (topic cursor : String) : M Handle := do
  let h ← perform (.deref h)
  if isNewer cursor (h.sub.cursors.get? topic) then do
    let h ← perform (.assign h (.cursor topic cursor))
    perform (.update h)
  else pure h

def resolveEventId (topic cursor : String) : M (Option String) := do
  let record ← recordAt topic cursor
  pure (record.map EventRecord.eventId)

/-- Advance the acked cursor, then the dispatch position, then write the ack down. -/
def advance (h : Handle) (topic cursor : String) (eventId : Option String) : M Handle := do
  let h ← advanceCursor h topic cursor
  let offset ← orRaise (Cursor.offsetOf cursor)
  raiseHighWater h.sub.subscriptionId topic offset
  let eventId ← (match eventId with
    | some e => pure (some e)
    | none => resolveEventId topic cursor)
  (match eventId with
    | some e => perform (.recordAck h.sub.subscriptionId e cursor)
    | none => pure ())
  pure h

def onDelivered (h : Handle) (record : EventRecord) (attempt : Nat) (result : DeliveryResult) :
    M Handle := do
  recordAttempt h record attempt .delivered result
  advance h record.topic record.cursor (some record.eventId)

/-- The position moves onto the dead-lettered event. -/
def onTerminal (h : Handle) (record : EventRecord) (attempt : Nat) (result : DeliveryResult) :
    M Unit := do
  recordAttempt h record attempt .deadLetter result
  let offset ← orRaise (Cursor.offsetOf record.cursor)
  perform (.setHighWater h.sub.subscriptionId record.topic offset)

/-- First attempt inline; on a retryable failure, enqueue a durable retry. -/
def deliverQueued (h : Handle) (record : EventRecord) : M Handle := do
  let result ← attemptSend cfg h record 1
  if result.ack then onDelivered h record 1 result
  else if !result.retry || cfg.maxAttempts ≤ 1 then do
    onTerminal h record 1 result
    pure h
  else do
    recordAttempt h record 1 .retry result
    let hex ← perform .uuid
    let now ← perform .now
    let delay ← orRaise (backoffDelay cfg 1)
    perform (.enqueue
      { retryId := "rty_" ++ hex
        subscriptionId := h.sub.subscriptionId
        topic := record.topic
        cursor := record.cursor
        eventId := record.eventId
        attempt := 1
        nextRetryAt := now + delay
        lastError := result.reason })
    -- the event is handed off: the position moves on, the acked cursor does not
    let offset ← orRaise (Cursor.offsetOf record.cursor)
    perform (.setHighWater h.sub.subscriptionId record.topic offset)
    pure h

/-- The attempts from number `attempt` on, `remaining` of them at most. -/
def deliverInline (h : Handle) (record : EventRecord) (attempt : Nat) : Nat → M Handle
  | 0 => pure h
  | remaining + 1 => do
    let result ← attemptSend cfg h record attempt
    if result.ack then onDelivered h record attempt result
    else if !result.retry || (attempt : Int) = cfg.maxAttempts then do
      onTerminal h record attempt result
      pure h
    else do
      recordAttempt h record attempt .retry result
      let delay ← orRaise (backoffDelay cfg attempt)
      perform (.sleep delay)
      deliverInline h record (attempt + 1) remaining

def deliverOne (h : Handle) (record : EventRecord) : M Handle :=
  if cfg.retryQueue then deliverQueued cfg h record
  else deliverInline cfg h record 1 cfg.maxAttempts.toNat

/-! ## Catching up -/

/-- One page of the log from the position on. A position that aged out of retention
    resumes at the oldest live event. -/
def readPage (topic : String) (fromCursor : Option String) : M (List EventRecord) := do
  match ← perform (.read topic fromCursor none cfg.pageSize) with
  | .ok (records, _) => pure records
  | .error e =>
    if e.code? = some .cursorExpired then do
      -- what aged out is skipped
      let (records, _) ← orRaise (← perform (.read topic none none cfg.pageSize))
      pure records
    else orRaise (.error e)

/-- Deliver the matching events of a page; returns the last offset scanned and the
    number of events processed. -/
def scanPage (topicModel : Topic) (scan : Int) (processed : Nat) (h : Handle) :
    List EventRecord → M (Int × Nat × Handle)
  | [] => pure (scan, processed, h)
  | record :: rest => do
    let offset ← orRaise (Cursor.offsetOf record.cursor)
    if (offset : Int) ≤ scan then scanPage topicModel scan processed h rest
    else do
      let matched ← orRaise (selectorMatches cfg.lower h.sub.selector (rawEventDict record)
        topicModel.filterableFields)
      let h ← (if matched then deliverOne cfg h record else pure h)
      scanPage topicModel offset (processed + 1) h rest

/-- The rounds of the `while` loop of `catchUp`. -/
def catchUpPages (topicModel : Topic) (topic : String) (processed : Nat) (h : Handle) :
    Nat → M (Nat × Handle)
  | 0 => .diverge
  | fuel + 1 => do
    let highWater ← perform (.highWater h.sub.subscriptionId)
    let position := highWater.getD topic (-1)
    let fromCursor ← orRaise (cursorAt topic position)
    let records ← readPage cfg topic fromCursor
    if records.isEmpty then pure (processed, h)
    else do
      let (scan, processed, h) ← scanPage cfg topicModel position processed h records
      -- once per page, so that events which the selector refused are not scanned again
      raiseHighWater h.sub.subscriptionId topic scan
      catchUpPages topicModel topic processed h fuel

/-- Deliver all events of a topic past the position of the subscription. -/
def catchUp (fuel : Nat) (h : Handle) (topic : String) : M (Nat × Handle) := do
  let topicModel ← getTopic topic
  catchUpPages cfg topicModel topic 0 h fuel

/-- Catch up with several topics. -/
def catchUpAll (fuel : Nat) (processed : Nat) (h : Handle) : List String → M Nat
  | [] => pure processed
  | topic :: rest => do
    let (n, h) ← catchUp cfg fuel h topic
    catchUpAll fuel (processed + n) h rest

/-- Catch a subscription up to the head, serialized by its dispatch lock. -/
def dispatchSubscription (fuel : Nat) (h : Handle) (topics : Option (List String)) : M Nat := do
  let (active, h) ← isActive h
  if !active then pure 0
  else do
    -- the subscriber may have lost its grants since
    if !(← perform (.authorizeDelivery h)) then pure 0
    else do
      perform (.acquire h.sub.subscriptionId)
      let outcome ← (catchUpAll cfg fuel 0 h (topics.getD h.sub.topics)).attempt
      -- the lock is released on an exception, too
      perform (.release h.sub.subscriptionId)
      orRaise outcome

/-- `asyncio.gather` of the dispatch jobs of the given subscriptions. -/
def gatherDispatch (hs : List Handle) (topics : Option (List String)) : M (List Val) :=
  .fork (hs.map fun h => .dispatchSubscription h topics) fun ids =>
    .join ids fun r => orRaise r

/-- Catch every subscription of a topic up to the head, concurrently. -/
def dispatchTopic (topic : String) : M Unit := do
  let hs ← perform .listAll
  let _ ← gatherDispatch (hs.filter fun h => topic ∈ h.sub.topics) (some [topic])
  pure ()

def publish (topic type : String) (data : List (String × Json)) (subject : Option String) :
    M EventRecord := do
  let record ← orRaise (← perform (.append topic type cfg.source data subject))
  (if !cfg.deferredDispatch then dispatchTopic topic else pure ())
  pure record

/-- The value of a dispatch job. -/
def dispatched : Val → Nat
  | .count n => n
  | _ => 0

def dispatchPending : M Nat := do
  let hs ← perform .listAll
  let results ← gatherDispatch (hs.filter fun h => !h.sub.topics.isEmpty) none
  pure (results.map dispatched).sum

/-! ## Subscription lifecycle -/

def checkLease (leaseSeconds : Int) : Except PyError Unit :=
  if leaseSeconds < cfg.minLeaseSeconds then
    raiseA2A .leaseTooShort ("Lease must be >= " ++ toString cfg.minLeaseSeconds ++ "s.")
      [("minLeaseSeconds", .int cfg.minLeaseSeconds)]
  else if leaseSeconds > cfg.maxLeaseSeconds then
    raiseA2A .leaseTooLong ("Lease must be <= " ++ toString cfg.maxLeaseSeconds ++ "s.")
      [("maxLeaseSeconds", .int cfg.maxLeaseSeconds)]
  else .ok ()

/-- Anything but a protocol error means that the card is unreachable. -/
def resolveCard (subscriberCardUrl : String) : Except PyError SubscriberCard :=
  match cfg.cardResolver subscriberCardUrl with
  | .ok card => .ok card
  | .error (.a2a err) => .error (.a2a err)
  | .error _ =>
    raiseA2A .subscriberCardUnreachable
      ("Could not resolve subscriber card " ++ subscriberCardUrl ++ ".")
      [("subscriberCardUrl", .str subscriberCardUrl)]

def checkDeliveryMode (mode : DeliveryMode) (card : SubscriberCard) : Except PyError Unit :=
  if mode ∉ card.acceptedDeliveryModes then
    raiseA2A .deliveryModeNotSupported
      ("Subscriber does not accept delivery mode " ++ mode.value ++ ".") [("mode", .str mode.value)]
  else .ok ()

def resolveDeliveryTarget (mode : DeliveryMode) (card : SubscriberCard) :
    Except PyError ResolvedDelivery :=
  match mode with
  | .webhook =>
    match card.receiveUrl with
    | none | some "" =>
      raiseA2A .deliveryEndpointNotDeclared "Subscriber AgentCard does not declare a receive URL."
    | some url => (cfg.checkEndpoint url).map fun _ => { mode := mode, resolvedUrl := some url }
  | .a2aMessage =>
    match card.a2aEndpoint with
    | none | some "" =>
      raiseA2A .deliveryEndpointNotDeclared "Subscriber AgentCard does not declare an A2A endpoint."
    | some url => (cfg.checkEndpoint url).map fun _ => { mode := mode, resolvedEndpoint := some url }

/-- Enforce the maximum number of subscriptions per subscriber, if configured. -/
def checkSubscriptionQuota (subscriberCardUrl : String) : M Unit :=
  match cfg.maxSubscriptionsPerSubscriber with
  | none => pure ()
  | some quota => do
    let hs ← listSubscriptions
    let existing := (hs.filter fun h => h.sub.subscriberCardUrl = subscriberCardUrl).length
    if existing ≥ quota then
      orRaise (raiseA2A .rateLimited
        ("Maximum subscriptions per subscriber reached (" ++ toString quota ++ ").")
        [("maxSubscriptionsPerSubscriber", .int quota)])
    else pure ()

/-- Fetch the configs of the requested topics. -/
def getTopics : List String → M (List Topic)
  | [] => pure []
  | name :: rest => do
    let topic ← getTopic name
    let topics ← getTopics rest
    pure (topic :: topics)

/-- What each requested topic has to allow. -/
def validateTopics (req : SubscribeRequest) : List Topic → Except PyError Unit
  | [] => .ok ()
  | topic :: rest =>
    match validateSelector req.selector topic with
    | .error e => .error e
    | .ok () =>
      if req.mode ∉ topic.deliveryModes then
        raiseA2A .deliveryModeNotSupported
          ("Topic " ++ topic.name ++ " does not support delivery mode " ++ req.mode.value ++ ".")
          [("topic", .str topic.name), ("mode", .str req.mode.value)]
      else if req.fromCursor ≠ Cursor.latest ∧ topic.replay = false then
        raiseA2A .replayNotSupported
          ("Topic " ++ topic.name ++ " does not support replay; subscribe with fromCursor " ++
            "\"latest\".")
          [("topic", .str topic.name)]
      else validateTopics req rest

/-- The start offsets of the requested topics. -/
def startOffsets (fromCursor : String) (acc : Dict String Int) : List Topic → M (Dict String Int)
  | [] => pure acc
  | topic :: rest => do
    let offset ← startOffset topic.name fromCursor
    startOffsets fromCursor (acc.set topic.name offset) rest

/-- The checks of `subscribe` up to the topics, and what they resolve. -/
def checkSubscribe (req : SubscribeRequest) (topics : List String) :
    M (ResolvedDelivery × List Topic) := do
  let key := match req.caller with
    | some caller => caller.subject
    | none => req.subscriberCardUrl
  (if cfg.rateLimiter then do orRaise (← perform (.rateLimit key "subscribe")) else pure ())
  (match cfg.selectorLimits with
    | some limits => orRaise (limits.check req.selector)
    | none => pure ())
  orRaise (← perform (.authorizeSubscribe req.caller topics))
  checkSubscriptionQuota cfg req.subscriberCardUrl
  let card ← orRaise (resolveCard cfg req.subscriberCardUrl)
  orRaise (checkDeliveryMode req.mode card)
  let resolved ← orRaise (resolveDeliveryTarget cfg req.mode card)
  let topicModels ← getTopics topics
  orRaise (validateTopics req topicModels)
  pure (resolved, topicModels)

/-- Check everything, capture the start offsets, persist, and catch up. -/
def subscribe (fuel : Nat) (req : SubscribeRequest) : M Subscription := do
  orRaise (checkLease cfg req.leaseSeconds)
  -- a topic that is named twice is subscribed to once
  let topics := (Dict.ofList (req.topics.map fun t => (t, ()))).keys
  let (resolved, topicModels) ← checkSubscribe cfg req topics
  let now ← perform .now
  let hex ← perform .uuid
  let sub : Subscription :=
    { subscriptionId := "sub_" ++ hex
      status := .active
      subscriberCardUrl := req.subscriberCardUrl
      topics := topics
      selector := req.selector
      delivery := resolved
      createdAt := now
      leaseUntil := now + seconds req.leaseSeconds
      cursors := ∅ }
  -- the positions are in the store before any event can be dispatched
  let offsets ← startOffsets req.fromCursor ∅ topicModels
  let h ← perform (.add sub offsets)
  (if !cfg.deferredDispatch then do
    let _ ← dispatchSubscription cfg fuel h none
    pure ()
  else pure ())
  let h ← perform (.deref h)
  pure h.sub

def renew (subscriptionId : String) (leaseSeconds : Int) : M Subscription := do
  orRaise (checkLease cfg leaseSeconds)
  let h ← getSubscription subscriptionId
  let now ← perform .now
  let h ← perform (.assign h (.leaseUntil (now + seconds leaseSeconds)))
  let h ← perform (.assign h (.status .active))
  let h ← perform (.update h)
  pure h.sub

/-- Deletion is idempotent. -/
def delete (subscriptionId : String) : M (Option Subscription) := do
  match ← perform (.get subscriptionId) with
  | none => pure none
  | some h => do
    let h ← perform (.assign h (.status .deleted))
    let h ← perform (.update h)
    pure (some h.sub)

def topicNotAuthorized {α : Type} (topic : String) : Except PyError α :=
  raiseA2A .topicNotAuthorized ("Subscription is not authorized for topic " ++ topic ++ ".")
    [("topic", .str topic)]

/-- Explicit ack: advance the acked cursor of the cursor's topic. -/
def ack (subscriptionId cursor : String) : M Subscription := do
  let h ← getActiveSubscription subscriptionId
  let topic ← orRaise (Cursor.topicOf cursor)
  if topic ∉ h.sub.topics then orRaise (topicNotAuthorized topic)
  else do
    let h ← advance h topic cursor none
    pure h.sub

/-- The matching events of a page, built for the subscription. -/
def replayEvents (sub : Subscription) (topicModel : Topic) :
    List EventRecord → Except PyError (List Json)
  | [] => .ok []
  | record :: rest =>
    match selectorMatches cfg.lower sub.selector (rawEventDict record)
        topicModel.filterableFields with
    | .error e => .error e
    | .ok matched =>
      match replayEvents sub topicModel rest with
      | .error e => .error e
      | .ok events =>
        .ok (if matched then buildEvent cfg sub record 1 topicModel.schemaUrl :: events else events)

/-- The topic that a replay is about. -/
def replayTopic (sub : Subscription) (fromCursor : Option String) : Except PyError String :=
  let first := match sub.topics with
    | [] => .error (.other "IndexError")
    | topic :: _ => .ok topic
  match fromCursor with
  | none => first
  | some from_ =>
    if from_ ≠ "" ∧ from_ ≠ Cursor.earliest ∧ from_ ≠ Cursor.latest then Cursor.topicOf from_
    else first

def replay (subscriptionId : String) (fromCursor toCursor : Option String) (limit : Int) :
    M (List Json × Option String) := do
  let h ← getActiveSubscription subscriptionId
  let topic ← orRaise (replayTopic h.sub fromCursor)
  if topic ∉ h.sub.topics then orRaise (topicNotAuthorized topic)
  else do
    let topicModel ← getTopic topic
    if topicModel.replay = false then
      orRaise (raiseA2A .replayNotSupported ("Topic " ++ topic ++ " does not support replay.")
        [("topic", .str topic)])
    else do
      let (records, next) ← orRaise (← perform (.read topic fromCursor toCursor limit))
      let events ← orRaise (replayEvents cfg h.sub topicModel records)
      pure (events, next)

/-! ## Retries -/

/-- Re-attempt one queued delivery. -/
def retryDelivery (item : RetryItem) : M Unit := do
  match ← perform (.get item.subscriptionId) with
  | none => perform (.complete item.retryId)
  | some h =>
    if h.sub.status ≠ .active then perform (.complete item.retryId)
    else do
      match ← recordAt item.topic item.cursor with
      -- the event aged out before it could be delivered
      | none => perform (.complete item.retryId)
      | some record => do
        let attempt := item.attempt + 1
        let result ← attemptSend cfg h record attempt
        if result.ack then do
          let _ ← onDelivered h record attempt result
          perform (.complete item.retryId)
        else if !result.retry || (attempt : Int) ≥ cfg.maxAttempts then do
          onTerminal h record attempt result
          perform (.complete item.retryId)
        else do
          -- the item stays in the queue, due later
          recordAttempt h record attempt .retry result
          let now ← perform .now
          let delay ← orRaise (backoffDelay cfg attempt)
          perform (.reschedule item.retryId (now + delay) attempt result.reason)

/-- The claimed items of a pass of the retry worker, one after the other. -/
def retryAll : List RetryItem → M Unit
  | [] => pure ()
  | item :: rest => do
    retryDelivery cfg item
    retryAll rest

/-- One pass of the retry worker. -/
def runOnce (now : Time) (batch leaseSeconds : Int) : M Nat := do
  let items ← perform (.claimDue now batch leaseSeconds)
  retryAll cfg items
  pure items.length

/-! ## Jobs -/

/-- The program of a call. -/
def code (fuel : Nat) : Job → M Val
  | .declareTopic topic => do
    perform (.declareTopic topic)
    pure .unit
  | .compact topic => do
    let removed ← perform (.compact topic)
    pure (.count removed)
  | .subscribe req => do
    let sub ← subscribe cfg fuel req
    pure (.subscription sub)
  | .getSubscription subscriptionId => do
    let h ← getSubscription subscriptionId
    pure (.subscription h.sub)
  | .listSubscriptions => do
    let hs ← listSubscriptions
    pure (.subscriptions (hs.map Handle.sub))
  | .renew subscriptionId leaseSeconds => do
    let sub ← renew cfg subscriptionId leaseSeconds
    pure (.subscription sub)
  | .delete subscriptionId => do
    let sub ← delete subscriptionId
    pure (.deleted sub)
  | .ack subscriptionId cursor => do
    let sub ← ack subscriptionId cursor
    pure (.subscription sub)
  | .replay subscriptionId fromCursor toCursor limit => do
    let (events, next) ← replay cfg subscriptionId fromCursor toCursor limit
    pure (.page events next)
  | .publish topic type data subject => do
    let record ← publish cfg topic type data subject
    pure (.record record)
  | .dispatchPending => do
    let n ← dispatchPending
    pure (.count n)
  | .dispatchSubscription h topics => do
    let n ← dispatchSubscription cfg fuel h topics
    pure (.count n)
  | .retryDelivery item => do
    retryDelivery cfg item
    pure .unit
  | .runOnce now batch leaseSeconds => do
    let n ← runOnce cfg now batch leaseSeconds
    pure (.count n)

/-- The publisher over its world, without and with the history of its calls. -/
@[reducible] def sem (fuel : Nat) : Sem sig where
  State := World
  Choice := Choice
  Env := Env
  isLocal := Op.isLocal
  exec := World.exec
  env := World.env
  restart := World.restart
  code := code cfg fuel
  exec_local := fun h i c w => World.exec_local h i c w

end Publisher

/-- A publisher with a pool of running calls. -/
abbrev Run.Config (cfg : PublisherConfig) (fuel : Nat) := Async.Config (Publisher.sem cfg fuel).traced

end A2AEvents
