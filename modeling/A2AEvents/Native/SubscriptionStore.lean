import Mathlib.Data.List.Sort
import A2AEvents.Native.Models

/-!
# Subscription store, retry queue and authorizer

`runtime/memory/subscription_store.py`, `runtime/memory/retry_queue.py` and the
grant table of `auth.py`.

A subscription store is used through objects. The in-memory store hands out live
references: every holder of a subscription sees, and makes, changes to the one
stored object. A durable store hands out value copies of a row and `update` writes
the mutable columns of a copy back. `Backend` tells the two apart; `Handle` is a
subscription as a task holds it, with the row it was read from or last written to.
-/

namespace A2AEvents

/-- Whether the store hands out live references or value copies. -/
inductive Backend where
  | live
  | copies
  deriving DecidableEq, Repr

/-- A subscription object in the hands of a task. `base` is the row as this object was
    read from it or last written to it. -/
structure Handle where
  sub : Subscription
  base : Subscription

/-- An assignment to a mutable field of a subscription object. -/
inductive Edit where
  | status (s : SubscriptionStatus)
  | leaseUntil (t : Time)
  | cursor (topic cursor : String)

def Edit.apply : Edit → Subscription → Subscription
  | .status s, sub => { sub with status := s }
  | .leaseUntil t, sub => { sub with leaseUntil := t }
  | .cursor topic c, sub => { sub with cursors := sub.cursors.set topic c }

/-- Subscriptions, dispatch positions, attempts and acks. -/
structure SubscriptionStore where
  backend : Backend := .live
  rows : Dict String Subscription := ∅
  positions : Dict String (Dict String Int) := ∅
  attempts : List DeliveryAttempt := []
  acks : Dict (String × String) String := ∅

namespace SubscriptionStore

def add (store : SubscriptionStore) (sub : Subscription) (highWater : Dict String Int) :
    SubscriptionStore :=
  { store with
    rows := store.rows.set sub.subscriptionId sub
    positions := store.positions.set sub.subscriptionId highWater }

def get (store : SubscriptionStore) (subscriptionId : String) : Option Handle :=
  (store.rows.get? subscriptionId).map fun sub => ⟨sub, sub⟩

/-- The row order of the durable store: by creation time, then by id. -/
def rowLe (a b : Subscription) : Prop :=
  a.createdAt < b.createdAt ∨ (a.createdAt = b.createdAt ∧ a.subscriptionId ≤ b.subscriptionId)

instance : DecidableRel rowLe := fun _ _ => inferInstanceAs (Decidable (_ ∨ _))

def listAll (store : SubscriptionStore) : List Handle :=
  let rows := match store.backend with
    | .live => store.rows.values
    | .copies => store.rows.values.insertionSort rowLe
  rows.map fun sub => ⟨sub, sub⟩

/-- What a task sees when it reads a field of its object. -/
def deref (store : SubscriptionStore) (h : Handle) : Handle :=
  match store.backend with
  | .copies => h
  | .live =>
    match store.rows.get? h.sub.subscriptionId with
    | some sub => ⟨sub, sub⟩
    | none => h

/-- An assignment to a field of the object. -/
def assign (store : SubscriptionStore) (h : Handle) (e : Edit) : Handle × SubscriptionStore :=
  match store.backend with
  | .copies => ({ h with sub := e.apply h.sub }, store)
  | .live =>
    match store.rows.get? h.sub.subscriptionId with
    | some sub =>
      (⟨e.apply sub, e.apply sub⟩,
        { store with rows := store.rows.set h.sub.subscriptionId (e.apply sub) })
    | none => ({ h with sub := e.apply h.sub }, store)

/-- Persist the mutable fields of the object: a live object is already current, a copy
    overwrites the columns of its row. -/
def update (store : SubscriptionStore) (h : Handle) : Handle × SubscriptionStore :=
  match store.backend with
  | .live => (h, store)
  | .copies =>
    match store.rows.get? h.sub.subscriptionId with
    | none => (h, store)
    | some row =>
      let row := { row with
        status := h.sub.status, leaseUntil := h.sub.leaseUntil, cursors := h.sub.cursors }
      (⟨h.sub, h.sub⟩, { store with rows := store.rows.set h.sub.subscriptionId row })

def highWater (store : SubscriptionStore) (subscriptionId : String) : Dict String Int :=
  (store.positions.get? subscriptionId).getD ∅

def setHighWater (store : SubscriptionStore) (subscriptionId topic : String) (offset : Int) :
    SubscriptionStore :=
  { store with
    positions := store.positions.set subscriptionId
      ((store.highWater subscriptionId).set topic offset) }

def recordAck (store : SubscriptionStore) (subscriptionId eventId cursor : String) :
    SubscriptionStore :=
  { store with acks := store.acks.set (subscriptionId, eventId) cursor }

def recordAttempt (store : SubscriptionStore) (attempt : DeliveryAttempt) : SubscriptionStore :=
  { store with attempts := store.attempts ++ [attempt] }

/-- The dispatch position of a subscription in a topic; `-1` is before the first event. -/
def position (store : SubscriptionStore) (subscriptionId topic : String) : Int :=
  (store.highWater subscriptionId).getD topic (-1)

end SubscriptionStore

/-! ## Retry queue -/

/-- `InMemoryRetryQueue`. -/
structure RetryQueue where
  items : Dict String RetryItem := ∅

namespace RetryQueue

def enqueue (queue : RetryQueue) (item : RetryItem) : RetryQueue :=
  { items := queue.items.set item.retryId item }

/-- `xs[:limit]`; a negative limit counts from the end. -/
def sliceTo {α : Type} (xs : List α) (limit : Int) : List α :=
  if limit ≥ 0 then xs.take limit.toNat else xs.take (xs.length - (-limit).toNat)

/-- Claim the items that are due, earliest first, and lease them forward. -/
def claimDue (queue : RetryQueue) (now : Time) (limit : Int) (leaseSeconds : Int) :
    List RetryItem × RetryQueue :=
  let due := sliceTo ((queue.items.values.filter fun i => i.nextRetryAt ≤ now).insertionSort
    fun a b => a.nextRetryAt ≤ b.nextRetryAt) limit
  let leased := due.map fun i => { i with nextRetryAt := now + seconds leaseSeconds }
  (leased, { items := leased.foldl (fun d i => d.set i.retryId i) queue.items })

def complete (queue : RetryQueue) (retryId : String) : RetryQueue :=
  { items := queue.items.erase retryId }

def reschedule (queue : RetryQueue) (retryId : String) (nextRetryAt : Time) (attempt : Nat)
    (lastError : Option String) : RetryQueue :=
  match queue.items.get? retryId with
  | none => queue
  | some item => { items := queue.items.set retryId { item with nextRetryAt, attempt, lastError } }

def pending (queue : RetryQueue) : List RetryItem := queue.items.values

end RetryQueue

/-! ## Topic authorization -/

/-- `AllowlistAuthorizer`: topics open to everyone, and the topics granted to a
    subject, where `"*"` grants all of them. -/
structure AllowlistAuthorizer where
  grants : Dict String (List String) := ∅
  publicTopics : List String := []

namespace AllowlistAuthorizer

def grant (auth : AllowlistAuthorizer) (subject : String) (topics : List String) :
    AllowlistAuthorizer :=
  let held := auth.grants.getD subject []
  { auth with grants := auth.grants.set subject (held ++ topics.filter (· ∉ held)) }

/-- Without topics the whole grant is withdrawn. -/
def revoke (auth : AllowlistAuthorizer) (subject : String) (topics : Option (List String)) :
    AllowlistAuthorizer :=
  match topics with
  | none => { auth with grants := auth.grants.erase subject }
  | some ts =>
    match auth.grants.get? subject with
    | none => auth
    | some held => { auth with grants := auth.grants.set subject (held.filter (· ∉ ts)) }

def allowed (auth : AllowlistAuthorizer) (subject : Option String) (topic : String) : Bool :=
  if topic ∈ auth.publicTopics then true
  else
    match subject with
    | none => false
    | some s =>
      let held := auth.grants.getD s []
      "*" ∈ held || topic ∈ held

def authorizeSubscribe (auth : AllowlistAuthorizer) (identity : Option AuthIdentity)
    (topics : List String) : Except PyError Unit :=
  let subject := identity.map AuthIdentity.subject
  let denied := topics.filter fun t => !auth.allowed subject t
  if denied.isEmpty then .ok ()
  else
    raiseA2A .topicNotAuthorized
      ("Caller is not authorized for topic(s): " ++ ", ".intercalate denied ++ ".")
      [("topics", .arr (denied.map Json.str)),
       ("subject", match subject with
        | some s => .str s
        | none => .null)]

def authorizeDelivery (auth : AllowlistAuthorizer) (sub : Subscription) : Bool :=
  sub.topics.all fun t => auth.allowed (some sub.subscriberCardUrl) t

end AllowlistAuthorizer

end A2AEvents
