import A2AEvents.ForStd.Machine
import A2AEvents.Native.EventStore
import A2AEvents.Native.SubscriptionStore

/-!
# Effects of the publisher

The calls that the publisher makes: to its stores, to the transport and to the
runtime around it. One call is one atomic step on the `World`, the state that all
tasks of a publisher share. The publisher's code is a program over these calls
(`A2AEvents.Native.Publisher`) and can therefore be interleaved at each of them.

Store, queue and transport calls, sleeping and waiting for a lock may suspend the
calling task. Reading the clock, drawing a uuid, touching a subscription object,
the topic cache and the authorizer happen in between and are local.
-/

namespace A2AEvents

open Async

/-- What goes over the wire: the request of one of the two delivery modes. -/
inductive Frame where
  | webhook (url : String) (headers : List (String × String)) (body : Json)
  | a2aMessage (endpoint : String) (message : Json)

/-- A `Subscribe` request. -/
structure SubscribeRequest where
  subscriberCardUrl : String
  topics : List String
  mode : DeliveryMode
  selector : Option Selector := none
  fromCursor : String := Cursor.latest
  leaseSeconds : Int := 86400
  caller : Option AuthIdentity := none

/-- The calls into the publisher. `dispatchSubscription` is the job that `publish` and
    `dispatch_pending` run for each subscription, `runOnce` a pass of the retry worker
    at a reading of its clock. -/
inductive Job where
  | declareTopic (topic : Topic)
  | compact (topic : Option String)
  | subscribe (req : SubscribeRequest)
  | getSubscription (subscriptionId : String)
  | listSubscriptions
  | renew (subscriptionId : String) (leaseSeconds : Int)
  | delete (subscriptionId : String)
  | ack (subscriptionId cursor : String)
  | replay (subscriptionId : String) (fromCursor toCursor : Option String) (limit : Int)
  | publish (topic type : String) (data : List (String × Json)) (subject : Option String)
  | dispatchPending
  | dispatchSubscription (h : Handle) (topics : Option (List String))
  | retryDelivery (item : RetryItem)
  | runOnce (now : Time) (batch leaseSeconds : Int)

/-- What the calls return. -/
inductive Val where
  | unit
  | subscription (sub : Subscription)
  | subscriptions (subs : List Subscription)
  | deleted (sub : Option Subscription)
  | record (record : EventRecord)
  | count (n : Nat)
  | page (events : List Json) (next : Option String)

/-- The calls that the publisher makes. -/
inductive Op where
  -- event store
  | declareTopic (topic : Topic)
  | getTopic (name : String)
  | append (topic eventType source : String) (data : List (String × Json))
      (subject : Option String)
  | compact (topic : Option String)
  | read (topic : String) (fromCursor toCursor : Option String) (limit : Int)
  | count (topic : String)
  | latestCursor (topic : String)
  -- subscription store
  | add (sub : Subscription) (highWater : Dict String Int)
  | get (subscriptionId : String)
  | listAll
  | update (h : Handle)
  | highWater (subscriptionId : String)
  | setHighWater (subscriptionId topic : String) (offset : Int)
  | recordAck (subscriptionId eventId cursor : String)
  | recordAttempt (attempt : DeliveryAttempt)
  -- retry queue
  | enqueue (item : RetryItem)
  | claimDue (now : Time) (limit leaseSeconds : Int)
  | complete (retryId : String)
  | reschedule (retryId : String) (nextRetryAt : Time) (attempt : Nat) (lastError : Option String)
  -- transport: attempt number `attempt` of `record` to `sub`, framed as `frame`
  | send (sub : Subscription) (record : EventRecord) (attempt : Nat) (frame : Frame)
  -- runtime
  | sleep (delay : Time)
  | acquire (subscriptionId : String)
  | release (subscriptionId : String)
  | now
  | uuid
  | deref (h : Handle)
  | assign (h : Handle) (e : Edit)
  | cachedTopic (name : String)
  | cacheTopic (name : String) (topic : Topic)
  | authorizeSubscribe (identity : Option AuthIdentity) (topics : List String)
  | authorizeDelivery (h : Handle)
  | rateLimit (key operation : String)

/-- What they are answered. -/
@[reducible] def Op.Res : Op → Type
  | .declareTopic _ => Unit
  | .getTopic _ => Except PyError Topic
  | .append .. => Except PyError EventRecord
  | .compact _ => Nat
  | .read .. => Except PyError (List EventRecord × Option String)
  | .count _ => Nat
  | .latestCursor _ => Except PyError String
  | .add .. => Handle
  | .get _ => Option Handle
  | .listAll => List Handle
  | .update _ => Handle
  | .highWater _ => Dict String Int
  | .setHighWater .. => Unit
  | .recordAck .. => Unit
  | .recordAttempt _ => Unit
  | .enqueue _ => Unit
  | .claimDue .. => List RetryItem
  | .complete _ => Unit
  | .reschedule .. => Unit
  | .send .. => Except PyError DeliveryResult
  | .sleep _ => Unit
  | .acquire _ => Unit
  | .release _ => Unit
  | .now => Time
  | .uuid => String
  | .deref _ => Handle
  | .assign .. => Handle
  | .cachedTopic _ => Option Topic
  | .cacheTopic .. => Unit
  | .authorizeSubscribe .. => Except PyError Unit
  | .authorizeDelivery _ => Bool
  | .rateLimit .. => Except PyError Unit

/-- The signature of the publisher's effects. -/
abbrev sig : Sig where
  Op := Op
  Res := Op.Res
  Job := Job
  Val := Val
  Err := PyError

/-- Everything the tasks of a publisher share: the clock, the supply of uuids, the
    stores, the topic cache, the holders of the dispatch locks and the authorizer. -/
structure World where
  clock : Time := 0
  uuids : Nat := 0
  store : EventStore := {}
  subs : SubscriptionStore := {}
  queue : RetryQueue := {}
  topics : Dict String Topic := ∅
  locks : Dict String Nat := ∅
  authorizer : Option AllowlistAuthorizer := none

/-- The part of an answer that the world does not determine: what the transport
    reports and whether the rate limiter lets a call pass. -/
structure Choice where
  result : Except PyError DeliveryResult := .ok { ack := true }
  limiter : Except PyError Unit := .ok ()

/-- What happens beside the publisher. -/
inductive Env where
  | tick (d : Nat)
  | grant (subject : String) (topics : List String)
  | revoke (subject : String) (topics : Option (List String))

/-- `uuid4().hex`, drawn from a supply that never repeats itself. -/
def uuidHex (n : Nat) : String := String.ofList (Nat.toDigits 16 n)

/-- Calls that never suspend the caller. -/
def Op.isLocal : Op → Bool
  | .release _ | .now | .uuid | .deref _ | .assign .. | .cachedTopic _ | .cacheTopic ..
  | .authorizeSubscribe .. | .authorizeDelivery _ | .rateLimit .. => true
  | _ => false

namespace World

/-- Whether deliveries to a subscription are authorized; without an authorizer they are. -/
def deliveryAuthorized (w : World) (sub : Subscription) : Bool :=
  match w.authorizer with
  | none => true
  | some auth => auth.authorizeDelivery sub

/-- Perform a call of task `i`. A lock is granted when nobody holds it. Subscription and
    retry ids are uuids: a call with an id that is already in use does not occur. -/
def exec (i : Nat) (o : Op) (c : Choice) (w : World) : Option (o.Res × World) :=
  match o with
  | .declareTopic topic => some ((), { w with store := w.store.declareTopic topic })
  | .getTopic name => some (w.store.getTopic name, w)
  | .append topic eventType source data subject =>
    let r := w.store.append w.clock ("evt_" ++ uuidHex w.uuids) topic eventType source data subject
    some (r.1, { w with store := r.2, uuids := w.uuids + 1 })
  | .compact topic =>
    let r := w.store.compact w.clock topic
    some (r.1, { w with store := r.2 })
  | .read topic fromCursor toCursor limit =>
    some (w.store.read w.clock topic fromCursor toCursor limit, w)
  | .count topic => some (w.store.count topic, w)
  | .latestCursor topic => some (w.store.latestCursor topic, w)
  | .add sub highWater =>
    match w.subs.rows.get? sub.subscriptionId with
    | some _ => none
    | none => some (⟨sub, sub⟩, { w with subs := w.subs.add sub highWater })
  | .get subscriptionId => some (w.subs.get subscriptionId, w)
  | .listAll => some (w.subs.listAll, w)
  | .update h =>
    let r := w.subs.update h
    some (r.1, { w with subs := r.2 })
  | .highWater subscriptionId => some (w.subs.highWater subscriptionId, w)
  | .setHighWater subscriptionId topic offset =>
    some ((), { w with subs := w.subs.setHighWater subscriptionId topic offset })
  | .recordAck subscriptionId eventId cursor =>
    some ((), { w with subs := w.subs.recordAck subscriptionId eventId cursor })
  | .recordAttempt attempt => some ((), { w with subs := w.subs.recordAttempt attempt })
  | .enqueue item =>
    match w.queue.items.get? item.retryId with
    | some _ => none
    | none => some ((), { w with queue := w.queue.enqueue item })
  | .claimDue now limit leaseSeconds =>
    let r := w.queue.claimDue now limit leaseSeconds
    some (r.1, { w with queue := r.2 })
  | .complete retryId => some ((), { w with queue := w.queue.complete retryId })
  | .reschedule retryId nextRetryAt attempt lastError =>
    some ((), { w with queue := w.queue.reschedule retryId nextRetryAt attempt lastError })
  | .send .. => some (c.result, w)
  | .sleep _ => some ((), w)
  | .acquire subscriptionId =>
    match w.locks.get? subscriptionId with
    | some _ => none
    | none => some ((), { w with locks := w.locks.set subscriptionId i })
  | .release subscriptionId => some ((), { w with locks := w.locks.erase subscriptionId })
  | .now => some (w.clock, w)
  | .uuid => some (uuidHex w.uuids, { w with uuids := w.uuids + 1 })
  | .deref h => some (w.subs.deref h, w)
  | .assign h e =>
    let r := w.subs.assign h e
    some (r.1, { w with subs := r.2 })
  | .cachedTopic name => some (w.topics.get? name, w)
  | .cacheTopic name topic => some ((), { w with topics := w.topics.set name topic })
  | .authorizeSubscribe identity topics =>
    some (match w.authorizer with
      | none => .ok ()
      | some auth => auth.authorizeSubscribe identity topics, w)
  | .authorizeDelivery h => some (w.deliveryAuthorized h.sub, w)
  | .rateLimit .. => some (c.limiter, w)

/-- Time passes; grants are given and withdrawn. -/
def env (e : Env) (w : World) : Option World :=
  match e with
  | .tick d => some { w with clock := w.clock + d }
  | .grant subject topics =>
    w.authorizer.map fun auth => { w with authorizer := some (auth.grant subject topics) }
  | .revoke subject topics =>
    w.authorizer.map fun auth => { w with authorizer := some (auth.revoke subject topics) }

/-- The process stops: its locks and its topic cache are gone, the stores stay. -/
def restart (w : World) : World := { w with topics := ∅, locks := ∅ }

theorem exec_local {o : Op} (h : o.isLocal = true) (i : Nat) (c : Choice) (w : World) :
    (exec i o c w).isSome = true := by
  cases o <;> simp_all [Op.isLocal, exec]

end World

end A2AEvents
