import A2AEvents.ForStd.Dict
import A2AEvents.Native.Errors

/-!
# Protocol models and runtime records

`models.py` and the records of `runtime/contracts.py`, with the fields that the
modelled code reads. Times are microseconds, the resolution of `datetime`.
-/

namespace A2AEvents

/-- The extension URI of the protocol. -/
def extensionUri : String := "https://a2a-events.github.io/a2a-events/extensions/events/v1"

/-- A point in time, in microseconds. -/
abbrev Time := Int

/-- `timedelta(seconds=n)`. -/
def seconds (n : Int) : Time := n * 1000000

inductive DeliveryMode where
  | webhook
  | a2aMessage
  deriving DecidableEq, Repr

/-- The wire form of a delivery mode. -/
def DeliveryMode.value : DeliveryMode → String
  | .webhook => "webhook"
  | .a2aMessage => "a2a-message"

inductive SubscriptionStatus where
  | active
  | expired
  | deleted
  deriving DecidableEq, Repr

/-- How many of the keywords have to occur. -/
inductive KeywordMatch where
  | all
  | any
  deriving DecidableEq, Repr

/-- A selector: a conjunction of field conditions, or a keyword search. -/
inductive Selector where
  | fieldFilter (where_ : Dict String (List Json))
  | keywordSearch (keywords : List String) (mode : KeywordMatch) (fields : Option (List String))

/-- The discriminator of a selector. -/
def Selector.type : Selector → String
  | .fieldFilter _ => "field_filter"
  | .keywordSearch .. => "keyword_search"

structure Topic where
  name : String
  schemaUrl : Option String := none
  retentionSeconds : Int := 604800
  replay : Bool := true
  selectorTypes : List String := ["field_filter", "keyword_search"]
  filterableFields : Option (List String) := none
  deliveryModes : List DeliveryMode := [.a2aMessage, .webhook]

/-- The delivery target that the publisher resolved from the subscriber's card. -/
structure ResolvedDelivery where
  mode : DeliveryMode
  resolvedUrl : Option String := none
  resolvedEndpoint : Option String := none
  deriving DecidableEq

structure Subscription where
  subscriptionId : String
  status : SubscriptionStatus
  subscriberCardUrl : String
  topics : List String
  selector : Option Selector
  delivery : ResolvedDelivery
  createdAt : Time
  leaseUntil : Time
  cursors : Dict String String

/-- One event of a topic's log. -/
structure EventRecord where
  eventId : String
  topic : String
  cursor : String
  eventType : String
  source : String
  data : List (String × Json)
  subject : Option String
  createdAt : Time

/-- The outcome of one delivery attempt, as the transport reports it. -/
structure DeliveryResult where
  ack : Bool
  retry : Bool := true
  statusCode : Option Int := none
  reason : Option String := none
  deriving DecidableEq

/-- How a recorded attempt ended. -/
inductive AttemptStatus where
  | delivered
  | retry
  | deadLetter
  deriving DecidableEq, Repr

/-- One delivery attempt of an event to a subscription. -/
structure DeliveryAttempt where
  deliveryAttemptId : String
  subscriptionId : String
  eventId : String
  cursor : String
  attempt : Nat
  status : AttemptStatus
  lastStatusCode : Option Int
  lastError : Option String
  deriving DecidableEq

/-- One event pending re-delivery to one subscription; `attempt` counts the attempts
    already made. -/
structure RetryItem where
  retryId : String
  subscriptionId : String
  topic : String
  cursor : String
  eventId : String
  attempt : Nat
  nextRetryAt : Time
  lastError : Option String
  deriving DecidableEq

/-- The authenticated caller of a control-plane request. -/
structure AuthIdentity where
  subject : String
  deriving DecidableEq

/-- The part of a subscriber's AgentCard that the publisher needs. -/
structure SubscriberCard where
  cardUrl : String
  a2aEndpoint : Option String := none
  receiveUrl : Option String := none
  acceptedDeliveryModes : List DeliveryMode := [.a2aMessage, .webhook]

end A2AEvents
