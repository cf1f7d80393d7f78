import A2AEvents.Spec.History

/-!
# The discipline of a publisher's tasks

Which state the tasks of a publisher keep to each other: a task changes the dispatch
positions of a subscription, and sends to it, only under the subscription's dispatch
lock. Explicit acks and retries do not take the lock; they are *exclusive*, which means
that the runs considered do not interleave them with other calls.

The invariant has a part that every run keeps and parts that hold in particular
regimes only; a `Regime` says which of them are asked for.

## Key results

- `Inv`: the invariant of the shared state
- `contract`: the invariant with the rely and the guarantee of every job
- `safe_read`, `safe_step`: proof rules for the calls of a task
-/

namespace A2AEvents

open Async Publisher

variable {cfg : PublisherConfig} {fuel : Nat}

/-! ## Subscriptions -/

/-- The fields of a subscription that never change agree. -/
structure Subscription.Alike (a b : Subscription) : Prop where
  subscriptionId : a.subscriptionId = b.subscriptionId
  subscriberCardUrl : a.subscriberCardUrl = b.subscriberCardUrl
  topics : a.topics = b.topics
  selector : a.selector = b.selector
  delivery : a.delivery = b.delivery
  createdAt : a.createdAt = b.createdAt

theorem Subscription.Alike.refl (a : Subscription) : a.Alike a := ⟨rfl, rfl, rfl, rfl, rfl, rfl⟩

theorem Subscription.Alike.symm {a b : Subscription} (h : a.Alike b) : b.Alike a :=
  ⟨h.1.symm, h.2.symm, h.3.symm, h.4.symm, h.5.symm, h.6.symm⟩

theorem Subscription.Alike.trans {a b c : Subscription} (hab : a.Alike b) (hbc : b.Alike c) :
    a.Alike c :=
  ⟨hab.1.trans hbc.1, hab.2.trans hbc.2, hab.3.trans hbc.3, hab.4.trans hbc.4, hab.5.trans hbc.5,
    hab.6.trans hbc.6⟩

/-- The subscription is not active, or its lease has run out. -/
def Subscription.Lapsed (sub : Subscription) (now : Time) : Prop :=
  sub.status ≠ .active ∨ sub.leaseUntil ≤ now

theorem Subscription.Lapsed.mono {sub : Subscription} {now later : Time} (h : sub.Lapsed now)
    (hle : now ≤ later) : sub.Lapsed later :=
  h.imp_right fun hl => Int.le_trans hl hle

/-- The fields of a retry item that never change agree. -/
structure RetryItem.Alike (a b : RetryItem) : Prop where
  retryId : a.retryId = b.retryId
  subscriptionId : a.subscriptionId = b.subscriptionId
  topic : a.topic = b.topic
  cursor : a.cursor = b.cursor
  eventId : a.eventId = b.eventId

theorem RetryItem.Alike.refl (a : RetryItem) : a.Alike a := ⟨rfl, rfl, rfl, rfl, rfl⟩

theorem RetryItem.Alike.trans {a b c : RetryItem} (hab : a.Alike b) (hbc : b.Alike c) : a.Alike c :=
  ⟨hab.1.trans hbc.1, hab.2.trans hbc.2, hab.3.trans hbc.3, hab.4.trans hbc.4, hab.5.trans hbc.5⟩

theorem Edit.apply_alike (e : Edit) (sub : Subscription) : (e.apply sub).Alike sub := by
  cases e <;> exact ⟨rfl, rfl, rfl, rfl, rfl, rfl⟩

/-! ## The parts of the invariant -/

namespace Snapshot

/-- The event was not owed, was out of retention when catch-up passed it, or its outcome
    is on record. -/
def Accounted (s : Snapshot cfg fuel) (sub : Subscription) (topic : String) (record : EventRecord)
    (o : Nat) : Prop :=
  (∃ log, s.state.store.logs.get? topic = some log ∧
    selectorMatches cfg.lower sub.selector (rawEventDict record) log.topic.filterableFields
      = .ok false) ∨
  (∃ e ∈ s.trace, Entry.Passes sub.subscriptionId topic record o e) ∨
  ∃ a ∈ s.state.subs.attempts, a.subscriptionId = sub.subscriptionId ∧
    a.eventId = record.eventId ∧ a.cursor = record.cursor ∧
    (a.status = .delivered ∨ a.status = .deadLetter)

/-- Every event after the start of the subscription and up to `bound` is accounted for. Only
    a subscription that started past the head has a bound there. -/
def AccountedUpTo (s : Snapshot cfg fuel) (subscriptionId topic : String) (bound : Int) : Prop :=
  ∀ p ∈ added s.trace, p.1.subscriptionId = subscriptionId →
    (bound < s.state.store.count topic ∨ bound ≤ p.2.getD topic (-1)) ∧
    ∀ r ∈ appended s.trace topic, ∀ o, r.LiesAt topic o → p.2.getD topic (-1) < o →
      (o : Int) ≤ bound → s.Accounted p.1 topic r o

/-- Nothing was sent beyond the dispatch positions. -/
def CaughtUp (s : Snapshot cfg fuel) (subscriptionId : String) : Prop :=
  ∀ topic, ∀ p ∈ sends s.trace subscriptionId topic,
    (p.1 : Int) ≤ s.state.subs.position subscriptionId topic

/-- The check with which task `i` last took a subscription up admitted `subscriptionId`. -/
def Admitted (trace : List (Entry cfg fuel)) (i : Nat) (subscriptionId : String) : Prop :=
  ∃ e, lastTakeUp trace i = some e ∧ e.Admits subscriptionId

/-- The item stands for an event that was appended and sent at least once. -/
def Owes (s : Snapshot cfg fuel) (item : RetryItem) : Prop :=
  1 ≤ item.attempt ∧ ∃ r ∈ appended s.trace item.topic,
    r.cursor = item.cursor ∧ r.eventId = item.eventId

end Snapshot

/-- A queued retry may be given up: its outcome is on record, its event is out of retention,
    or its subscription is gone or not active. -/
def World.Released (w : World) (item : RetryItem) : Prop :=
  (∃ a ∈ w.subs.attempts, a.subscriptionId = item.subscriptionId ∧ a.eventId = item.eventId ∧
    (a.status = .delivered ∨ a.status = .deadLetter)) ∨
  (∀ r ∈ w.store.live w.clock item.topic, r.cursor ≠ item.cursor) ∨
  ∀ row, w.subs.rows.get? item.subscriptionId = some row → row.status ≠ .active

/-- The call removed the item from the queue. -/
def Entry.Removes (id : String) (item : RetryItem) : Entry cfg fuel → Prop
  | ⟨_, .complete retryId, _, w⟩ =>
    retryId = id ∧ ∃ queued, w.queue.items.get? id = some queued ∧ queued.Alike item
  | _ => False

/-- The event store and the events appended so far. -/
structure StoreInv (s : Snapshot cfg fuel) : Prop where
  wf : s.state.store.Wf
  cache : ∀ name topic, s.state.topics.get? name = some topic →
    ∃ log, s.state.store.logs.get? name = some log ∧ log.topic = topic
  numbered : ∀ topic, ∀ r ∈ appended s.trace topic,
    ∃ o, o < s.state.store.count topic ∧ r.LiesAt topic o
  unique : ∀ topic, ∀ r ∈ appended s.trace topic, ∀ q ∈ appended s.trace topic,
    ∀ o, r.LiesAt topic o → q.LiesAt topic o → r = q
  logged : ∀ topic, ∀ r ∈ s.state.store.events topic, r ∈ appended s.trace topic

/-- The rows of the subscription store. -/
structure RowInv (s : Snapshot cfg fuel) : Prop where
  key : ∀ id row, s.state.subs.rows.get? id = some row → row.subscriptionId = id
  absent : ∀ id, s.state.subs.rows.get? id = none → s.state.subs.positions.get? id = none ∧
    s.state.locks.get? id = none ∧ ∀ topic, sends s.trace id topic = []
  added : ∀ p ∈ added s.trace, ∃ row,
    s.state.subs.rows.get? p.1.subscriptionId = some row ∧ row.Alike p.1

/-- The items of the retry queue. -/
def QueueInv (s : Snapshot cfg fuel) : Prop :=
  ∀ id item, s.state.queue.items.get? id = some item → item.retryId = id ∧ s.Owes item

/-- Items were removed from the retry queue for a reason only. -/
def RemovalInv (s : Snapshot cfg fuel) : Prop :=
  ∀ e ∈ s.trace, ∀ retryId, e.op = .complete retryId → ∀ item,
    e.before.queue.items.get? retryId = some item → e.before.Released item

/-- Positions and acked cursors lie below the heads of the logs. -/
structure Bounded (s : Snapshot cfg fuel) : Prop where
  backend : s.state.subs.backend = .live
  position : ∀ id topic, s.state.subs.position id topic < s.state.store.count topic
  acked : ∀ id row topic cursor, s.state.subs.rows.get? id = some row →
    row.cursors.get? topic = some cursor →
    ∃ o, Cursor.split cursor = .ok (topic, o) ∧ o < s.state.store.count topic

/-- The sends are in log order, and none lies beyond the position of a subscription that
    is not being dispatched. -/
structure Ordered (s : Snapshot cfg fuel) : Prop where
  inOrder : ∀ id topic, InOrder (sends s.trace id topic)
  caughtUp : ∀ id, s.state.locks.get? id = none → s.CaughtUp id

/-- Every event that a position has passed is accounted for. -/
def Accounts (s : Snapshot cfg fuel) : Prop :=
  ∀ id topic, s.AccountedUpTo id topic (s.state.subs.position id topic)

/-- Every send was admitted. -/
def Gated (s : Snapshot cfg fuel) : Prop :=
  ∀ before (e : Entry cfg fuel) after, s.trace = before ++ e :: after →
    ∀ sub record attempt frame, e.op = .send sub record attempt frame →
      Snapshot.Admitted before e.task sub.subscriptionId

/-- First attempts are made of events beyond the position only. -/
def Fresh (s : Snapshot cfg fuel) : Prop :=
  ∀ e ∈ s.trace, ∀ sub record frame, e.op = .send sub record 1 frame →
    ∀ o, record.LiesAt record.topic o →
      e.before.subs.position sub.subscriptionId record.topic < o

/-! ## Regimes -/

/-- The parts of the invariant that a run is to keep. -/
structure Regime where
  bounded : Bool := false
  monotone : Bool := false
  ordered : Bool := false
  accounted : Bool := false
  gated : Bool := false
  acked : Bool := false

/-- The jobs that do not interleave with others: those that touch positions without the
    lock and, where sends have to be admitted, those that revive a subscription. -/
def Regime.exclusive (R : Regime) : Job → Bool
  | .ack .. | .retryDelivery _ | .runOnce .. => true
  | .renew .. => R.gated
  | _ => false

variable (R : Regime)

/-- The invariant of the shared state. -/
structure Inv (s : Snapshot cfg fuel) : Prop where
  store : StoreInv s
  rows : RowInv s
  queue : QueueInv s
  removals : RemovalInv s
  bounded : R.bounded = true → Bounded s
  ordered : R.ordered = true → Ordered s
  accounts : R.accounted = true → Accounts s
  gated : R.gated = true → Gated s
  fresh : R.monotone = true → Fresh s

/-- Queued items stay, or a call among `l` removed them. -/
def QueueKept (s s' : Snapshot cfg fuel) (l : List (Entry cfg fuel)) : Prop :=
  ∀ id item, s.state.queue.items.get? id = some item →
    (∃ item', s'.state.queue.items.get? id = some item' ∧ item'.Alike item) ∨
      ∃ e ∈ l, Entry.Removes id item e

/-- What only ever grows. -/
structure Grows (s s' : Snapshot cfg fuel) : Prop where
  trace : ∃ l, s'.trace = s.trace ++ l ∧ QueueKept s s' l
  appended : ∀ topic, ∀ r ∈ appended s'.trace topic, r ∈ appended s.trace topic ∨
    ∃ o, s.state.store.count topic ≤ o ∧ r.LiesAt topic o
  added : ∀ p ∈ added s'.trace, p ∈ added s.trace ∨
    s.state.subs.rows.get? p.1.subscriptionId = none
  clock : s.state.clock ≤ s'.state.clock
  store : s.state.store.Grows s'.state.store
  rows : ∀ id row, s.state.subs.rows.get? id = some row →
    ∃ row', s'.state.subs.rows.get? id = some row' ∧ row'.Alike row
  attempts : ∀ a ∈ s.state.subs.attempts, a ∈ s'.state.subs.attempts
  backend : s'.state.subs.backend = s.state.subs.backend
  position : R.monotone = true → ∀ id topic,
    s.state.subs.position id topic ≤ s'.state.subs.position id topic

/-- The lock of a subscription protects its positions and what was sent to it. -/
structure Protects (i : Nat) (id : String) (s s' : Snapshot cfg fuel) : Prop where
  lock : s'.state.locks.get? id = some i
  position : ∀ topic, s'.state.subs.position id topic = s.state.subs.position id topic
  sends : ∀ topic, sends s'.trace id topic = sends s.trace id topic

/-- Nobody revives a subscription in place: one that is not active stays so, and so does one
    whose lease has lapsed. -/
def StaysLapsed (s s' : Snapshot cfg fuel) : Prop :=
  s.state.subs.backend = .live → ∀ id row row', s.state.subs.rows.get? id = some row →
    s'.state.subs.rows.get? id = some row' → (row.status ≠ .active → row'.status ≠ .active) ∧
      (row.Lapsed s.state.clock → row'.Lapsed s'.state.clock)

/-- What the tasks beside task `i` may do while it runs. -/
structure Interferes (i : Nat) (s s' : Snapshot cfg fuel) : Prop extends Grows R s s' where
  protects : ∀ id, s.state.locks.get? id = some i → Protects i id s s'
  takeUp : lastTakeUp s'.trace i = lastTakeUp s.trace i
  lapsed : R.gated = true → StaysLapsed s s'

/-- What happens beside an exclusive job: time passes and grants change. -/
structure Idles (i : Nat) (s s' : Snapshot cfg fuel) : Prop extends Interferes R i s s' where
  logs : s'.state.store = s.state.store
  subscriptions : s'.state.subs.rows = s.state.subs.rows
  positions : s'.state.subs.positions = s.state.subs.positions
  queue : s'.state.queue = s.state.queue
  locks : s'.state.locks = s.state.locks

/-- What task `i` may do beside the others. -/
structure Keeps (i : Nat) (s s' : Snapshot cfg fuel) : Prop extends Grows R s s' where
  protects : ∀ id k, k ≠ i → s.state.locks.get? id = some k → Protects k id s s'
  takeUp : ∀ k, k ≠ i → lastTakeUp s'.trace k = lastTakeUp s.trace k
  lapsed : R.gated = true → StaysLapsed s s'

/-- Retries. -/
def Job.isRetry : Job → Bool
  | .retryDelivery _ | .runOnce .. => true
  | _ => false

/-- The cursor of an explicit ack. -/
def Job.acks? : Job → Option String
  | .ack _ cursor => some cursor
  | _ => none

def Job.isSubscribe : Job → Bool
  | .subscribe _ => true
  | _ => false

/-- A result that ends the delivery of an event without success. -/
def DeliveryResult.terminal (result : DeliveryResult) (cfg : PublisherConfig) (attempt : Nat) :
    Bool :=
  !result.ack && (!result.retry || decide ((attempt : Int) ≥ cfg.maxAttempts))

/-- The publisher can compute the delay after a failed attempt, or needs none. -/
def DeliveryResult.Waits (result : DeliveryResult) (cfg : PublisherConfig) (attempt : Nat) : Prop :=
  result.ack = false → result.retry = true → (attempt : Int) = cfg.maxAttempts ∨ attempt ≤ 1024

/-- The steps the regime speaks about. In a bounded run the cursors of clients lie below the
    heads: the one of an ack that finds its subscription served, and the one that a subscribe
    looks up. An ordered run has a transport that always returns, and not so many failures of an
    event that the delay after them overflows; in a monotone run no retry
    ends behind the position of its subscription; in a gated run retries find the lease
    running and the delivery authorized; in an acked run the transport acks all it is given. -/
def Admissible (j : Job) (o : Op) (c : Choice) (s : Snapshot cfg fuel) : Prop :=
  match o with
  | .send sub record attempt _ =>
    (R.ordered = true → ∃ result, c.result = .ok result ∧ result.Waits cfg attempt) ∧
    (R.monotone = true → j.isRetry = true → ∀ result, c.result = .ok result →
      result.terminal cfg attempt = true → ∀ o, record.LiesAt record.topic o →
        s.state.subs.position sub.subscriptionId record.topic ≤ o) ∧
    (R.acked = true → ∃ result, c.result = .ok result ∧ result.ack = true)
  | .get id => ∀ row, s.state.subs.rows.get? id = some row →
    (R.gated = true → j.isRetry = true → row.status = .active →
      s.state.clock < row.leaseUntil ∧ s.state.deliveryAuthorized row = true) ∧
    (R.bounded = true → ∀ cursor, j.acks? = some cursor → ¬ row.Lapsed s.state.clock →
      ∀ topic o, Cursor.split cursor = .ok (topic, o) → topic ∈ row.topics →
        o < s.state.store.count topic)
  | .read topic (some from_) (some _) _ => R.bounded = true → j.isSubscribe = true →
      ∀ o, Cursor.split from_ = .ok (topic, o) → o < s.state.store.count topic
  | _ => True

/-- A handle of an existing subscription. -/
def Refers (h : Handle) (s : Snapshot cfg fuel) : Prop :=
  ∃ row, s.state.subs.rows.get? h.sub.subscriptionId = some row ∧ row.Alike h.sub

/-- The queue holds nothing else under the id of the item. -/
def Matches (item : RetryItem) (s : Snapshot cfg fuel) : Prop :=
  s.Owes item ∧ ∀ queued, s.state.queue.items.get? item.retryId = some queued → queued.Alike item

/-- What a job needs when it enters the pool. -/
def Ready (j : Job) (s : Snapshot cfg fuel) : Prop :=
  match j with
  | .dispatchSubscription h _ => Refers h s
  | .ack .. => R.ordered = false ∧ R.accounted = false
  | .retryDelivery item => (R.ordered = false ∧ R.accounted = false) ∧ Matches item s
  | .runOnce .. => R.ordered = false ∧ R.accounted = false
  | _ => True

/-- The configurations a regime speaks about. Sends are ordered and events accounted for
    where no retry queue is used, or nothing comes into it. -/
structure Regime.Fits (cfg : PublisherConfig) : Prop where
  ordered : R.ordered = true → cfg.retryQueue = false ∨ R.acked = true
  accounted : R.accounted = true → (cfg.retryQueue = false ∧ 1 ≤ cfg.maxAttempts) ∨
    (cfg.retryQueue = true ∧ R.acked = true)

/-- Invariant, rely and guarantee of a publisher's tasks. -/
def contract : Contract (sem cfg fuel).traced where
  inv := Inv R
  rely j i := if R.exclusive j then Idles R i else Interferes R i
  guar j i := if R.exclusive j then Grows R else Keeps R i
  adm j _ o c s := Admissible R j o c s
  pre := Ready R
  peer j j' := R.exclusive j = false ∧ R.exclusive j' = false

/-! ## Interference -/

section Interference

variable {R} {i : Nat} {s s' s'' : Snapshot cfg fuel}

theorem Entry.Removes.alike {id : String} {item item' : RetryItem} {e : Entry cfg fuel}
    (h : e.Removes id item') (ha : item'.Alike item) : e.Removes id item := by
  obtain ⟨task, op, res, before⟩ := e
  cases op <;> try exact h.elim
  obtain ⟨hid, queued, hq, hqa⟩ := h
  exact ⟨hid, queued, hq, hqa.trans ha⟩

theorem Grows.refl (s : Snapshot cfg fuel) : Grows R s s :=
  ⟨⟨[], by simp, fun _ item h => .inl ⟨item, h, .refl _⟩⟩, fun _ _ => .inl, fun _ => .inl,
    Int.le_refl _, .refl _, fun _ row h => ⟨row, h, .refl _⟩, fun _ h => h, rfl,
    fun _ _ _ => Int.le_refl _⟩

theorem Grows.trans (h : Grows R s s') (h' : Grows R s' s'') : Grows R s s'' where
  trace := by
    obtain ⟨l, hl, hkept⟩ := h.trace
    obtain ⟨l', hl', hkept'⟩ := h'.trace
    refine ⟨l ++ l', by rw [hl', hl, List.append_assoc], ?_⟩
    intro id item hitem
    rcases hkept id item hitem with ⟨item', hitem', ha⟩ | ⟨e, he, hr⟩
    · rcases hkept' id item' hitem' with ⟨item'', hitem'', ha'⟩ | ⟨e, he, hr⟩
      · exact .inl ⟨item'', hitem'', ha'.trans ha⟩
      · exact .inr ⟨e, List.mem_append_right _ he, hr.alike ha⟩
    · exact .inr ⟨e, List.mem_append_left _ he, hr⟩
  appended := by
    intro topic r hr
    rcases h'.appended topic r hr with hr | ⟨o, ho, hat⟩
    · exact h.appended topic r hr
    · exact .inr ⟨o, Nat.le_trans (h.store.count topic) ho, hat⟩
  added := by
    intro p hp
    rcases h'.added p hp with hp | hnone
    · exact h.added p hp
    · refine .inr ?_
      cases hrow : s.state.subs.rows.get? p.1.subscriptionId with
      | none => rfl
      | some row =>
        obtain ⟨row', hrow', -⟩ := h.rows _ row hrow
        rw [hrow'] at hnone
        cases hnone
  clock := Int.le_trans h.clock h'.clock
  store := h.store.trans h'.store
  rows := by
    intro id row hrow
    obtain ⟨row₁, h₁, ha₁⟩ := h.rows id row hrow
    obtain ⟨row₂, h₂, ha₂⟩ := h'.rows id row₁ h₁
    exact ⟨row₂, h₂, ha₂.trans ha₁⟩
  attempts := fun a ha => h'.attempts a (h.attempts a ha)
  backend := h'.backend.trans h.backend
  position := fun hm id topic => Int.le_trans (h.position hm id topic) (h'.position hm id topic)

theorem Protects.trans {id : String} (h : Protects i id s s') (h' : Protects i id s' s'') :
    Protects i id s s'' :=
  ⟨h'.lock, fun topic => (h'.position topic).trans (h.position topic),
    fun topic => (h'.sends topic).trans (h.sends topic)⟩

theorem StaysLapsed.trans (hg : Grows R s s') (h : StaysLapsed s s') (h' : StaysLapsed s' s'') :
    StaysLapsed s s'' := by
  intro hlive id row row'' hrow hrow''
  obtain ⟨row', hrow', -⟩ := hg.rows id row hrow
  have h₁ := h hlive id row row' hrow hrow'
  have h₂ := h' (hg.backend.trans hlive) id row' row'' hrow' hrow''
  exact ⟨fun hne => h₂.1 (h₁.1 hne), fun hl => h₂.2 (h₁.2 hl)⟩

theorem StaysLapsed.of_rows_eq (h : s'.state.subs.rows = s.state.subs.rows)
    (hclock : s.state.clock ≤ s'.state.clock) : StaysLapsed s s' := by
  intro _ id row row' hrow hrow'
  rw [h, hrow] at hrow'
  cases hrow'
  exact ⟨fun hne => hne, fun hl => hl.mono hclock⟩

theorem Interferes.refl (s : Snapshot cfg fuel) : Interferes R i s s :=
  { Grows.refl s with
    protects := fun _ h => ⟨h, fun _ => rfl, fun _ => rfl⟩
    takeUp := rfl
    lapsed := fun _ => .of_rows_eq rfl (Int.le_refl _) }

theorem Interferes.trans (h : Interferes R i s s') (h' : Interferes R i s' s'') :
    Interferes R i s s'' :=
  { h.toGrows.trans h'.toGrows with
    protects := fun id hlock =>
      have hp := h.protects id hlock
      hp.trans (h'.protects id hp.lock)
    takeUp := h'.takeUp.trans h.takeUp
    lapsed := fun hg => (h.lapsed hg).trans h.toGrows (h'.lapsed hg) }

theorem Idles.refl (s : Snapshot cfg fuel) : Idles R i s s :=
  { Interferes.refl s with
    logs := rfl, subscriptions := rfl, positions := rfl, queue := rfl, locks := rfl }

theorem Idles.trans (h : Idles R i s s') (h' : Idles R i s' s'') : Idles R i s s'' :=
  { h.toInterferes.trans h'.toInterferes with
    logs := h'.logs.trans h.logs
    subscriptions := h'.subscriptions.trans h.subscriptions
    positions := h'.positions.trans h.positions
    queue := h'.queue.trans h.queue
    locks := h'.locks.trans h.locks }

/-- What one task may do is what the others have to expect. -/
theorem Keeps.interferes {k : Nat} (h : Keeps R i s s') (hne : k ≠ i) : Interferes R k s s' :=
  { h.toGrows with
    protects := fun id hlock => h.protects id k hne hlock
    takeUp := h.takeUp k hne
    lapsed := h.lapsed }

end Interference

end A2AEvents
