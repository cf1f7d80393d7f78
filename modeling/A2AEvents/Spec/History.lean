import Mathlib.Data.List.Chain
import A2AEvents.Native.Publisher
import A2AEvents.Spec.EventStoreInvariant

/-!
# What the history of a publisher tells

The history variable of a run lists the calls made so far, each with the world that it
found. From it come the notions that no store keeps: the events ever appended, the sends
to a subscription, the check that let a task handle a subscription, and the page of the
log with which catch-up passed an event by.

## Key results

- `InOrder.concat`: extending a sequence of sends that is in log order
-/

namespace A2AEvents

open Async Publisher

/-- One performed call. -/
abbrev Entry (cfg : PublisherConfig) (fuel : Nat) := (sem cfg fuel).Entry

/-- The world together with the calls made so far. -/
abbrev Snapshot (cfg : PublisherConfig) (fuel : Nat) := (sem cfg fuel).Traced

variable {cfg : PublisherConfig} {fuel : Nat}

/-! ## Calls that wait -/

namespace World

variable {i : Nat} {c : Choice} {w w' : World}

/-- A subscription is added under an id that is free. -/
theorem add_of_exec {sub : Subscription} {offsets : Dict String Int} {r : (Op.add sub offsets).Res}
    (hex : World.exec i (.add sub offsets) c w = some (r, w')) :
    w.subs.rows.get? sub.subscriptionId = none ∧ r = ⟨sub, sub⟩ ∧ w' = { w with subs := w.subs.add sub offsets } := by
  simp only [World.exec] at hex
  split at hex
  · cases hex
  · rename_i hfree
    cases hex
    exact ⟨hfree, rfl, rfl⟩

theorem enqueue_of_exec {item : RetryItem} {r : (Op.enqueue item).Res}
    (hex : World.exec i (.enqueue item) c w = some (r, w')) :
    w.queue.items.get? item.retryId = none ∧ w' = { w with queue := w.queue.enqueue item } := by
  simp only [World.exec] at hex
  split at hex
  · cases hex
  · rename_i hfree
    cases hex
    exact ⟨hfree, rfl⟩

/-- A lock is taken when it is free. -/
theorem acquire_of_exec {id : String} {r : (Op.acquire id).Res} (hex : World.exec i (.acquire id) c w = some (r, w')) :
    w.locks.get? id = none ∧ w' = { w with locks := w.locks.set id i } := by
  simp only [World.exec] at hex
  split at hex
  · cases hex
  · rename_i hfree
    cases hex
    exact ⟨hfree, rfl⟩

end World

namespace Entry

/-- The event that the call appended to a topic. -/
def appended? (topic : String) : Entry cfg fuel → Option EventRecord
  | ⟨_, .append name _ _ _ _, .ok record, _⟩ => if name = topic then some record else none
  | _ => none

/-- The subscription that the call added, with its start offsets. -/
def added? : Entry cfg fuel → Option (Subscription × Dict String Int)
  | ⟨_, .add sub offsets, _, _⟩ => some (sub, offsets)
  | _ => none

/-- Offset and number of the attempt that the call sent to a subscription. -/
def sent? (subscriptionId topic : String) : Entry cfg fuel → Option (Nat × Nat)
  | ⟨_, .send sub record attempt _, _, _⟩ =>
    if sub.subscriptionId = subscriptionId ∧ record.topic = topic then
      match Cursor.offsetOf record.cursor with
      | .ok offset => some (offset, attempt)
      | .error _ => none
    else none
  | _ => none

/-- The call sent something. -/
def isSend : Entry cfg fuel → Bool
  | ⟨_, .send .., _, _⟩ => true
  | _ => false

/-- The calls with which a task takes a subscription up: a dispatch job asks for the
    authorization of the object it was given, a retry fetches its subscription. -/
def takesUp : Entry cfg fuel → Bool
  | ⟨_, .authorizeDelivery _, _, _⟩ => true
  | ⟨_, .get _, _, _⟩ => true
  | _ => false

/-- The call found the subscription active, its lease running and the delivery
    authorized. -/
def Admits (subscriptionId : String) : Entry cfg fuel → Prop
  | ⟨_, .authorizeDelivery h, _, w⟩ =>
    h.sub.subscriptionId = subscriptionId ∧ h.sub.status = .active ∧ w.clock < h.sub.leaseUntil ∧
      w.deliveryAuthorized h.sub = true ∧
      (w.subs.backend = .live → w.subs.rows.get? subscriptionId = some h.sub)
  | ⟨_, .get id, _, w⟩ =>
    id = subscriptionId ∧ ∃ row, w.subs.rows.get? id = some row ∧ row.status = .active ∧
      w.clock < row.leaseUntil ∧ w.deliveryAuthorized row = true
  | _ => False

/-- The call read a page of the topic for the subscription from a position before event
    number `o`, which had already been appended and was not live. -/
def Passes (subscriptionId topic : String) (record : EventRecord) (o : Nat) :
    Entry cfg fuel → Prop
  | ⟨i, .read name _ none _, _, w⟩ =>
    name = topic ∧ w.locks.get? subscriptionId = some i ∧ w.subs.position subscriptionId topic < o ∧
      o < w.store.count topic ∧ record ∉ w.store.live w.clock topic
  | _ => False

end Entry

/-- The events ever appended to a topic. -/
def appended (trace : List (Entry cfg fuel)) (topic : String) : List EventRecord :=
  trace.filterMap (Entry.appended? topic)

/-- The subscriptions ever added, with their start offsets. -/
def added (trace : List (Entry cfg fuel)) : List (Subscription × Dict String Int) :=
  trace.filterMap Entry.added?

/-- The sends of a topic's events to a subscription, as offsets and attempt numbers. -/
def sends (trace : List (Entry cfg fuel)) (subscriptionId topic : String) : List (Nat × Nat) :=
  trace.filterMap (Entry.sent? subscriptionId topic)

/-- How many sends there were, to whomever. -/
def sendCount (trace : List (Entry cfg fuel)) : Nat := (trace.filter Entry.isSend).length

/-- The call with which a task last took a subscription up. -/
def lastTakeUp (trace : List (Entry cfg fuel)) (i : Nat) : Option (Entry cfg fuel) :=
  (trace.filter fun e => e.task = i ∧ e.takesUp).getLast?

@[simp] theorem appended_concat (trace : List (Entry cfg fuel)) (e : Entry cfg fuel)
    (topic : String) :
    appended (trace ++ [e]) topic = appended trace topic ++ (e.appended? topic).toList := by
  cases h : e.appended? topic <;> simp [appended, h]

@[simp] theorem added_concat (trace : List (Entry cfg fuel)) (e : Entry cfg fuel) :
    added (trace ++ [e]) = added trace ++ e.added?.toList := by
  cases h : e.added? <;> simp [added, h]

@[simp] theorem sends_concat (trace : List (Entry cfg fuel)) (e : Entry cfg fuel)
    (id topic : String) :
    sends (trace ++ [e]) id topic = sends trace id topic ++ (e.sent? id topic).toList := by
  cases h : e.sent? id topic <;> simp [sends, h]

@[simp] theorem sendCount_concat (trace : List (Entry cfg fuel)) (e : Entry cfg fuel) :
    sendCount (trace ++ [e]) = sendCount trace + if e.isSend = true then 1 else 0 := by
  cases h : e.isSend <;> simp [sendCount, h]

@[simp] theorem lastTakeUp_concat (trace : List (Entry cfg fuel)) (e : Entry cfg fuel) (i : Nat) :
    lastTakeUp (trace ++ [e]) i =
      if e.task = i ∧ e.takesUp = true then some e else lastTakeUp trace i := by
  by_cases h : e.task = i ∧ e.takesUp = true
  · simp [lastTakeUp, List.filter_append, h]
  · have : [e].filter (fun e => decide (e.task = i ∧ e.takesUp = true)) = [] := by
      simpa using h
    rw [if_neg h]
    simp only [lastTakeUp, List.filter_append, this, List.append_nil]

theorem appended_append (a b : List (Entry cfg fuel)) (topic : String) :
    appended (a ++ b) topic = appended a topic ++ appended b topic := by
  simp [appended]

/-! ## Log order -/

/-- One send may follow another: the next attempt of the same event, or the first attempt
    of a later one. -/
def Follows (a b : Nat × Nat) : Prop :=
  (b.1 = a.1 ∧ b.2 = a.2 + 1) ∨ (a.1 < b.1 ∧ b.2 = 1)

instance : DecidableRel Follows := fun _ _ => inferInstanceAs (Decidable (_ ∨ _))

/-- Sends in log order: the attempts of an event are contiguous and numbered from one,
    and the offsets of distinct events ascend. -/
def InOrder (l : List (Nat × Nat)) : Prop :=
  (∀ p, l.head? = some p → p.2 = 1) ∧ l.IsChain Follows

instance (l : List (Nat × Nat)) : Decidable (InOrder l) :=
  inferInstanceAs (Decidable ((∀ p, l.head? = some p → p.2 = 1) ∧ _))

/-- The send that may come next. -/
def MayFollow (l : List (Nat × Nat)) (p : Nat × Nat) : Prop :=
  (l = [] → p.2 = 1) ∧ ∀ q, l.getLast? = some q → Follows q p

theorem InOrder.concat {l : List (Nat × Nat)} {p : Nat × Nat} (h : InOrder l)
    (hp : MayFollow l p) : InOrder (l ++ [p]) := by
  refine ⟨?_, ?_⟩
  · intro q hq
    cases l with
    | nil =>
      simp only [List.nil_append, List.head?_cons, Option.some.injEq] at hq
      rw [← hq]
      exact hp.1 rfl
    | cons a l => exact h.1 q (by simpa using hq)
  · refine List.isChain_append.mpr ⟨h.2, .singleton p, ?_⟩
    intro q hq r hr
    simp only [List.head?_cons, Option.mem_def, Option.some.injEq] at hr
    rw [← hr]
    exact hp.2 q hq

/-- After sends of smaller offsets the first attempt of an event may come. -/
theorem mayFollow_first {l : List (Nat × Nat)} {o : Nat} (h : ∀ p ∈ l, p.1 < o) :
    MayFollow l (o, 1) :=
  ⟨fun _ => rfl, fun q hq => .inr ⟨h q (List.mem_of_getLast? hq), rfl⟩⟩

/-- After an attempt the next attempt of the same event may come. -/
theorem mayFollow_next (l : List (Nat × Nat)) (o n : Nat) : MayFollow (l ++ [(o, n)]) (o, n + 1) := by
  refine ⟨fun h => by simp at h, fun q hq => ?_⟩
  simp only [List.getLast?_append, List.getLast?_singleton, Option.some_or, Option.some.injEq] at hq
  subst hq
  exact .inl ⟨rfl, rfl⟩

end A2AEvents
