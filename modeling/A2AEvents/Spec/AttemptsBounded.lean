import A2AEvents.Spec.Provenance
import A2AEvents.Spec.RetryQueueCorrect
import A2AEvents.Spec.Runs

/-!
# Attempt numbers stay within the ceiling

Workers act on copies of queued items, which may be stale, and write absolute attempt numbers
back. The ceiling holds all the same: a copy has the number of an item that was once queued, the
attempt made from it is one higher, and it is written back only below the ceiling. So the
numbers obey a protocol of the calls, and no task has to know what the others are doing.

## Key results

- `attempts_kept`: the calls that obey the protocol keep the numbers in range
- `code_follows`: every job obeys the protocol
- `attempts_bounded`: the numbers in any run
-/

namespace A2AEvents

open Async Publisher

variable {cfg : PublisherConfig} {fuel : Nat}

/-! ## The protocol -/

namespace PublisherConfig

/-- Numbers of attempts that can be on record. -/
def Numbers (cfg : PublisherConfig) (attempt : Nat) : Prop := 1 ≤ attempt ∧ (attempt : Int) ≤ cfg.maxAttempts

/-- Numbers after which there is another attempt. -/
def Retries (cfg : PublisherConfig) (attempt : Nat) : Prop := 1 ≤ attempt ∧ (attempt : Int) < cfg.maxAttempts

/-- The attempts that are recorded and the items that are queued have numbers in range, if the items
    that are claimed do. -/
def attemptProtocol (cfg : PublisherConfig) : Protocol sig where
  asks := fun o => match o with
    | .recordAttempt attempt => cfg.Numbers attempt.attempt
    | .enqueue item => cfg.Retries item.attempt
    | .reschedule _ _ attempt _ => cfg.Retries attempt
    | _ => True
  answers := fun o r => match o, r with
    | .claimDue .., items => ∀ item ∈ items, cfg.Retries item.attempt
    | _, _ => True
  jobs := fun j => match j with
    | .retryDelivery item => cfg.Retries item.attempt
    | _ => True

end PublisherConfig

/-- The items that the call returned to a worker. -/
def Entry.claimed : Entry cfg fuel → List RetryItem
  | ⟨_, .claimDue .., items, _⟩ => items
  | _ => []

/-- The numbers on record and in the queue are in range. -/
structure World.InRange (cfg : PublisherConfig) (w : World) : Prop where
  recorded : ∀ a ∈ w.subs.attempts, cfg.Numbers a.attempt
  queued : ∀ id item, w.queue.items.get? id = some item → cfg.Retries item.attempt

/-- And so are those in the hands of workers. -/
structure InRange (s : Snapshot cfg fuel) : Prop where
  world : s.state.InRange cfg
  claimed : ∀ e ∈ s.trace, ∀ item ∈ Entry.claimed e, cfg.Retries item.attempt

/-! ## The calls keep the numbers in range -/

/-- The call touches neither the attempts on record nor the queue. -/
def Op.unnumbered : Op → Bool
  | .recordAttempt _ | .enqueue _ | .claimDue .. | .complete _ | .reschedule .. => false
  | _ => true

theorem SubscriptionStore.assign_attempts (store : SubscriptionStore) (h : Handle) (e : Edit) :
    (store.assign h e).2.attempts = store.attempts := by
  unfold assign
  split
  · rfl
  · split <;> rfl

theorem SubscriptionStore.update_attempts (store : SubscriptionStore) (h : Handle) :
    (store.update h).2.attempts = store.attempts := by
  unfold update
  split
  · rfl
  · split <;> rfl

theorem World.exec_unnumbered {i : Nat} {o : Op} {c : Choice} {w w' : World} {r : o.Res}
    (ho : o.unnumbered = true) (hex : World.exec i o c w = some (r, w')) :
    w'.subs.attempts = w.subs.attempts ∧ w'.queue = w.queue := by
  cases o with
  | recordAttempt | enqueue | claimDue | complete | reschedule => cases ho
  | add sub offsets =>
    obtain ⟨-, rfl, rfl⟩ := World.add_of_exec hex
    exact ⟨rfl, rfl⟩
  | acquire id =>
    obtain ⟨-, rfl⟩ := World.acquire_of_exec hex
    exact ⟨rfl, rfl⟩
  | assign h e =>
    cases hex
    exact ⟨SubscriptionStore.assign_attempts _ _ _, rfl⟩
  | update h =>
    cases hex
    exact ⟨SubscriptionStore.update_attempts _ _, rfl⟩
  | _ =>
    cases hex
    exact ⟨rfl, rfl⟩

/-- A call that obeys the protocol keeps the numbers in range, and claims give out numbers in range. -/
theorem World.InRange.exec {i : Nat} {o : Op} {c : Choice} {w w' : World} {r : o.Res}
    (h : w.InRange cfg) (ho : cfg.attemptProtocol.asks o) (hex : World.exec i o c w = some (r, w')) :
    w'.InRange cfg ∧ cfg.attemptProtocol.answers o r := by
  by_cases hun : o.unnumbered = true
  · obtain ⟨hattempts, hqueue⟩ := World.exec_unnumbered hun hex
    constructor
    · constructor
      · rw [hattempts]
        exact h.recorded
      · rw [hqueue]
        exact h.queued
    · cases o with
      | claimDue now limit lease => cases hun
      | _ => trivial
  cases o with
  | recordAttempt attempt =>
    cases hex
    refine ⟨⟨?_, h.queued⟩, trivial⟩
    intro a ha
    rcases List.mem_append.mp ha with ha | ha
    · exact h.recorded a ha
    · rw [List.mem_singleton.mp ha]
      exact ho
  | enqueue item =>
    obtain ⟨-, rfl⟩ := World.enqueue_of_exec hex
    exact ⟨⟨h.recorded, RetryQueue.All.enqueue h.queued ho⟩, trivial⟩
  | claimDue now limit lease =>
    cases hex
    obtain ⟨hleased, hqueued⟩ := RetryQueue.All.claimDue (P := fun item => cfg.Retries item.attempt) h.queued
      (fun _ _ hitem => hitem) now limit lease
    exact ⟨⟨h.recorded, hqueued⟩, hleased⟩
  | complete retryId =>
    cases hex
    exact ⟨⟨h.recorded, RetryQueue.All.complete h.queued retryId⟩, trivial⟩
  | reschedule retryId nextRetryAt attempt lastError =>
    cases hex
    -- the number that is written over the old one is in range, too
    exact ⟨⟨h.recorded, RetryQueue.All.reschedule h.queued retryId fun _ _ => ho⟩, trivial⟩
  | _ => exact absurd rfl hun

theorem InRange.exec {i : Nat} {o : Op} {c : Choice} {s s' : Snapshot cfg fuel} {r : o.Res}
    (h : InRange s) (ho : cfg.attemptProtocol.asks o)
    (hex : (sem cfg fuel).traced.exec i o c s = some (r, s')) :
    InRange s' ∧ cfg.attemptProtocol.answers o r := by
  obtain ⟨⟨r', w'⟩, hex', heq⟩ := Option.map_eq_some_iff.mp hex
  cases heq
  obtain ⟨hworld, hanswer⟩ := h.world.exec ho hex'
  refine ⟨⟨hworld, ?_⟩, hanswer⟩
  intro e he
  rcases List.mem_append.mp he with he | he
  · exact h.claimed e he
  · -- the call that was just made
    rw [List.mem_singleton.mp he]
    cases o with
    | claimDue now limit lease => exact hanswer
    | _ =>
      intro item hitem
      cases hitem

/-! ## Every job obeys the protocol -/

/-- The program obeys the protocol of attempt numbers. -/
abbrev Obeys (cfg : PublisherConfig) {α : Type} (p : M α) : Prop := p.Follows cfg.attemptProtocol

/-- Every job obeys the protocol, a retry if its item does. -/
theorem code_follows (hmax : 1 ≤ cfg.maxAttempts) {j : Job} (hj : cfg.attemptProtocol.jobs j) :
    Obeys cfg (code cfg fuel j) := by
  have htakes : ∀ {item : RetryItem}, Answers.Takes cfg.attemptProtocol.answers j item → cfg.Retries item.attempt := by
    intro item h
    cases h with
    | given hitem =>
      subst hitem
      exact hj
    | claimed ha hmem => exact ha item hmem
  refine (Prog.Upholds.mono ?_ ?_ ?_ (code_sourced cfg fuel j cfg.attemptProtocol.answers)).follows
  · intro o ho
    cases o with
    | recordAttempt attempt =>
      cases ho.1 with
      | within hpos hle => exact ⟨hpos, by omega⟩
      | next hitem hn =>
        -- the number after one that allows another attempt
        obtain ⟨hpos, hlt⟩ := htakes hitem
        exact ⟨by omega, by omega⟩
    | enqueue item =>
      obtain ⟨hone, hlt, -⟩ := ho
      exact ⟨by omega, by omega⟩
    | reschedule retryId nextRetryAt attempt lastError =>
      obtain ⟨item, -, hn, hlt⟩ := ho
      exact ⟨by omega, hlt⟩
    | _ => trivial
  · exact id
  · intro j' hj'
    cases j' with
    | retryDelivery item => exact hj'.elim
    | _ => trivial

/-! ## Runs -/

theorem attempts_kept (hmax : 1 ≤ cfg.maxAttempts) :
    cfg.attemptProtocol.Kept (sem cfg fuel).traced (@InRange cfg fuel) where
  exec := InRange.exec
  env := by
    intro e s s' h he
    obtain ⟨w, hw, rfl⟩ := Option.map_eq_some_iff.mp he
    refine ⟨?_, h.claimed⟩
    cases e with
    | tick d =>
      cases hw
      exact ⟨h.world.recorded, h.world.queued⟩
    | grant subject topics =>
      obtain ⟨auth, -, rfl⟩ := Option.map_eq_some_iff.mp hw
      exact ⟨h.world.recorded, h.world.queued⟩
    | revoke subject topics =>
      obtain ⟨auth, -, rfl⟩ := Option.map_eq_some_iff.mp hw
      exact ⟨h.world.recorded, h.world.queued⟩
  restart := fun h => ⟨⟨h.world.recorded, h.world.queued⟩, h.claimed⟩
  code := code_follows hmax

/-- Anything may happen, but a retry is made of an item that some claim returned, however long ago. -/
def WorkersClaim (c : Run.Config cfg fuel) : Action (sem cfg fuel).traced → Prop
  | .start (.retryDelivery item) => ∃ e ∈ c.state.trace, item ∈ Entry.claimed e
  | _ => True

/-- In any run, with any number of retry workers, leases that run out and crashes: the attempts on record
    have numbers from one to the ceiling, and the pending items have numbers from one and below it. -/
theorem attempts_bounded (hmax : 1 ≤ cfg.maxAttempts) {backend : Backend} {clock : Time}
    {authorizer : Option AllowlistAuthorizer} {c : Run.Config cfg fuel}
    (hrun : Config.Run WorkersClaim (initial cfg fuel backend clock authorizer) c) :
    (∀ a ∈ c.state.state.subs.attempts, 1 ≤ a.attempt ∧ (a.attempt : Int) ≤ cfg.maxAttempts) ∧
      ∀ item ∈ c.state.state.queue.pending, 1 ≤ item.attempt ∧ (item.attempt : Int) < cfg.maxAttempts := by
  have hinitial : Protocol.Kept.Good cfg.attemptProtocol InRange (initial cfg fuel backend clock authorizer) := by
    refine ⟨⟨⟨fun _ h => (by cases h), fun _ _ h => (by cases h)⟩, fun _ h => (by cases h)⟩, fun _ h => (by cases h)⟩
  have hstart : ∀ {c : Run.Config cfg fuel} {j : Job}, WorkersClaim c (.start j) → InRange c.state →
      cfg.attemptProtocol.jobs j := by
    intro c j hok hin
    cases j with
    | retryDelivery item =>
      obtain ⟨e, he, hitem⟩ := hok
      exact hin.claimed e he item hitem
    | _ => trivial
  obtain ⟨hin, -⟩ := (attempts_kept hmax).run hstart hinitial hrun
  refine ⟨hin.world.recorded, ?_⟩
  intro item hitem
  obtain ⟨id, hid⟩ := Dict.mem_values_iff.mp hitem
  exact hin.world.queued id item hid

/-- No retries but those of worker passes. -/
def passesOnly (_ : Run.Config cfg fuel) : Action (sem cfg fuel).traced → Bool
  | .start (.retryDelivery _) => false
  | _ => true

theorem workersClaim_of_passesOnly {c : Run.Config cfg fuel} {act : Action (sem cfg fuel).traced}
    (h : passesOnly c act = true) : WorkersClaim c act := by
  cases act with
  | start j =>
    cases j with
    | retryDelivery item => cases h
    | _ => trivial
  | _ => trivial

/-- A worker claims an item and is slow; its lease runs out, and another worker claims the item and fails;
    the first one then fails, too. -/
theorem attempts_bounded_sample : ∃ c : Run.Config Sample.queued 5,
    Config.Run WorkersClaim (initial Sample.queued 5 .live 0 none) c ∧
      c.state.state.subs.attempts.map DeliveryAttempt.attempt = [1, 2, 2] ∧
      (∀ a ∈ c.state.state.subs.attempts, 1 ≤ a.attempt ∧ (a.attempt : Int) ≤ Sample.queued.maxAttempts) ∧
      ∀ item ∈ c.state.state.queue.pending, 1 ≤ item.attempt ∧ (item.attempt : Int) < Sample.queued.maxAttempts := by
  have hrun : ((initial Sample.queued 5 .live 0 none).runsWith passesOnly
      (Sample.subscribed ++ Sample.published 2 11 Sample.failing ++
        .env (.tick 2000000) :: Sample.call 4 (.runOnce 2000000 10 60) 3 Sample.failing ++
        .env (.tick 60000000) :: Sample.call 5 (.runOnce 62000000 10 60) 6 Sample.failing ++
        List.replicate 3 (.task 4 Sample.failing))).any
      (fun c => c.state.state.subs.attempts.map DeliveryAttempt.attempt = [1, 2, 2]) = true := by
    decide +kernel
  obtain ⟨c, hc, hattempts⟩ := Config.Run.of_any hrun
  have hworkers := hc.mono fun _ _ h => workersClaim_of_passesOnly h
  exact ⟨c, hworkers, of_decide_eq_true hattempts, attempts_bounded (by decide) hworkers⟩

end A2AEvents
