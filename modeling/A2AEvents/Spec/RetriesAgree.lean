import A2AEvents.Spec.DeliveryEvaluation
import A2AEvents.Spec.RecordsCorrect

/-!
# Inline and queued retries

An event is delivered by the inline loop, or by one attempt and passes of the retry worker.
Both follow the same course: the passes make one attempt after the other until the course is
at its end and the queue is empty.

## Key results

- `recordAt_live`: a worker finds the event as long as it is in retention
- `retries_agree_iff`: when both retry engines agree
-/

namespace A2AEvents

open Async Publisher

variable {cfg : PublisherConfig} {fuel : Nat}

/-! ## Looking an event up -/

section

variable {s : Snapshot cfg fuel}

/-- A worker finds the event as long as it is in retention. -/
theorem recordAt_live (reply : Nat → Choice) (i : Nat) {record : EventRecord} {o : Nat}
    (hwf : s.state.store.Wf) (hoff : Cursor.offsetOf record.cursor = .ok o)
    (hlive : record ∈ s.state.store.live s.state.clock record.topic) :
    ∃ s', Evals reply i (recordAt record.topic record.cursor) s (.ok (some record)) s' ∧
      s'.state = s.state ∧ Quiet s s' := by
  obtain ⟨n, -, hat⟩ := hwf.liesAt (EventStore.mem_events_of_mem_live hlive)
  obtain rfl : o = n := hat.offsetOf hoff
  have hne : record.topic ≠ "" := (Cursor.eq_of_offsetOf_encode hat.cursor hoff).2
  obtain ⟨log, hlog, -⟩ := EventStore.mem_live.mp hlive
  have hc : Cursor.offsetFor record.topic record.cursor = .ok o := by
    simpa using Cursor.offsetFor_encode hne hat.cursor
  have hfound : s.state.store.liveAt s.state.clock record.topic o = some record :=
    (EventStore.liveAt_eq_some_iff hwf hne).mpr ⟨hlive, hat⟩
  obtain ⟨s', hrun, hrest⟩ := recordAt_eval reply i hwf hlog hc
  rw [hfound] at hrun
  exact ⟨s', hrun, hrest⟩

end

/-! ## The queue of one delivery -/

namespace RetryQueue

variable {queue : RetryQueue} {item : RetryItem}

private theorem claimDue_nil (h : queue.items.entries = []) (now : Time) (limit lease : Int) :
    queue.claimDue now limit lease = ([], queue) := by
  have hdue : ∀ l : Int, sliceTo ([] : List RetryItem) l = [] := by
    intro l
    unfold sliceTo
    split <;> simp
  simp [claimDue, Dict.values, h, hdue]

/-- A pass claims the only item, or nothing. -/
private theorem claimDue_single (h : queue.items.entries = [(item.retryId, item)]) (now : Time)
    (limit lease : Int) :
    queue.claimDue now limit lease = ([], queue) ∨ ∃ t queue',
      queue.claimDue now limit lease = ([{ item with nextRetryAt := t }], queue') ∧
      queue'.items.entries = [(item.retryId, { item with nextRetryAt := t })] := by
  have hslice : ∀ l : List RetryItem, l = [] ∨ l = [item] → sliceTo l limit = [] ∨ sliceTo l limit = [item] := by
    intro l hl
    have htake : ∀ k, l.take k = [] ∨ l.take k = [item] := by
      intro k
      rcases hl with rfl | rfl <;> cases k <;> simp
    unfold sliceTo
    split <;> exact htake _
  have hdue : sliceTo ((queue.items.values.filter fun i => i.nextRetryAt ≤ now).insertionSort
      fun a b => a.nextRetryAt ≤ b.nextRetryAt) limit = [] ∨
      sliceTo ((queue.items.values.filter fun i => i.nextRetryAt ≤ now).insertionSort
      fun a b => a.nextRetryAt ≤ b.nextRetryAt) limit = [item] := by
    refine hslice _ ?_
    by_cases hle : item.nextRetryAt ≤ now <;> simp [Dict.values, h, hle]
  rcases hdue with hdue | hdue
  · left
    simp [claimDue, hdue]
  · right
    refine ⟨now + seconds lease, _, by simp only [claimDue, hdue]; rfl, ?_⟩
    simp [Dict.set, h, Dict.setEntries]

/-- The item is claimed once it is due. -/
private theorem claimDue_due (h : queue.items.entries = [(item.retryId, item)]) (lease : Int) :
    (queue.claimDue item.nextRetryAt 1 lease).1 ≠ [] := by
  simp [claimDue, Dict.values, h, sliceTo]

private theorem complete_single (h : queue.items.entries = [(item.retryId, item)]) :
    (queue.complete item.retryId).items.entries = [] := by
  simp [complete, Dict.erase, h]

private theorem reschedule_single (h : queue.items.entries = [(item.retryId, item)]) (at_ : Time)
    (attempt : Nat) (reason : Option String) :
    (queue.reschedule item.retryId at_ attempt reason).items.entries =
      [(item.retryId, { item with nextRetryAt := at_, attempt := attempt, lastError := reason })] := by
  have hget : queue.items.get? item.retryId = some item := by
    simp [Dict.get?, h, Dict.get?.go]
  simp [reschedule, hget, Dict.set, h, Dict.setEntries]

private theorem enqueue_single (h : queue.items.entries = []) :
    (queue.enqueue item).items.entries = [(item.retryId, item)] := by
  simp [enqueue, Dict.set, h, Dict.setEntries]

end RetryQueue

/-! ## Both engines follow the course -/

/-- The attempts that were written down since `w`. -/
def Logged (w : World) (h : Handle) (record : EventRecord) (log : List (Nat × AttemptStatus)) (w' : World) :
    Prop :=
  ∃ l, w'.subs.attempts = w.subs.attempts ++ l ∧ l.map (fun a => (a.attempt, a.status)) = log ∧
    ∀ a ∈ l, a.subscriptionId = h.sub.subscriptionId ∧ a.eventId = record.eventId

private theorem Logged.concat {w w' w'' : World} {h : Handle} {record : EventRecord}
    {log : List (Nat × AttemptStatus)} {attempt : DeliveryAttempt} {n : Nat} {status : AttemptStatus}
    (hl : Logged w h record log w') (hattempts : w''.subs.attempts = w'.subs.attempts ++ [attempt])
    (hn : attempt.attempt = n) (hstatus : attempt.status = status)
    (hid : attempt.subscriptionId = h.sub.subscriptionId) (hevent : attempt.eventId = record.eventId) :
    Logged w h record (log ++ [(n, status)]) w'' := by
  obtain ⟨l, hl, hlog, hof⟩ := hl
  refine ⟨l ++ [attempt], by rw [hattempts, hl, List.append_assoc], ?_, fun a ha => ?_⟩
  · rw [List.map_append, hlog, List.map_singleton, hn, hstatus]
  · rcases List.mem_append.mp ha with ha | ha
    · exact hof a ha
    · rw [List.mem_singleton.mp ha]
      exact ⟨hid, hevent⟩

/-- What the delivery of an event starts from: it is the next event of an active subscription, and
    nothing is queued. -/
structure Deliverable (w : World) (h : Handle) (record : EventRecord) (o : Nat) : Prop where
  wf : w.store.Wf
  offset : Cursor.offsetOf record.cursor = .ok o
  live : record ∈ w.store.live w.clock record.topic
  held : Held h w
  active : h.sub.status = .active
  cached : ∃ topic, w.topics.get? record.topic = some topic
  next : w.subs.position h.sub.subscriptionId record.topic < o
  idle : w.queue.items.entries = []

/-- The part of the world that deliveries do not change. -/
structure Fixed (w w' : World) : Prop where
  store : w'.store = w.store
  topics : w'.topics = w.topics

/-- The delivery has taken its course. -/
structure Finished (w : World) (h : Handle) (record : EventRecord) (o : Nat) (c : Course)
    (s : Snapshot cfg fuel) : Prop where
  fixed : Fixed w s.state
  logged : Logged w h record c.log s.state
  row : s.state.subs.rows.get? h.sub.subscriptionId = some (c.ending.sub h.sub record)
  position : s.state.subs.position h.sub.subscriptionId record.topic = o
  idle : s.state.queue.items.entries = []

/-- After `n` failures the rest of the course lies ahead, and the event is in the queue. -/
structure Waiting (reply : Nat → Choice) (w : World) (h : Handle) (record : EventRecord) (o : Nat)
    (c : Course) (n : Nat) (item : RetryItem) (s : Snapshot cfg fuel) : Prop where
  fixed : Fixed w s.state
  held : Held h s.state
  position : s.state.subs.position h.sub.subscriptionId record.topic = o
  queued : s.state.queue.items.entries = [(item.retryId, item)]
  subscriptionId : item.subscriptionId = h.sub.subscriptionId
  topic : item.topic = record.topic
  cursor : item.cursor = record.cursor
  attempt : item.attempt = n
  small : n ≤ 1024
  more : (n : Int) < cfg.maxAttempts
  count : sendCount s.trace = n
  ending : (course cfg reply n (n + 1) (cfg.maxAttempts.toNat - n)).ending = c.ending
  logged : ∃ log, Logged w h record log s.state ∧
    c.log = log ++ (course cfg reply n (n + 1) (cfg.maxAttempts.toNat - n)).log

section

variable {reply : Nat → Choice} {i : Nat} {s s' : Snapshot cfg fuel} {w : World} {h : Handle}
  {record : EventRecord} {o n : Nat} {item : RetryItem}

/-- The next attempt of a waiting event is the next one of its course. -/
theorem retryDelivery_eval (i : Nat) {c : Course} (hr : Deliverable w h record o)
    (hreply : ∀ m, ∃ result, (reply m).result = .ok result) (hc : ∀ e, c.ending ≠ .raised e)
    (hw : Waiting reply w h record o c n item s)
    (hlive : record ∈ w.store.live s.state.clock record.topic) :
    ∃ s', Evals reply i (retryDelivery cfg item) s (.ok ()) s' ∧
      (Finished w h record o c s' ∨ ∃ item', Waiting reply w h record o c (n + 1) item' s') := by
  obtain ⟨topic, hcached⟩ := hr.cached
  obtain ⟨log, hlogged, hlog⟩ := hw.logged
  obtain ⟨result, hresult⟩ := hreply n
  have hdata : ∃ bytes, canonicalize (.obj record.data) = .ok bytes := by
    obtain ⟨l, hl, hmem, -⟩ := EventStore.mem_live.mp hr.live
    exact (hr.wf _ l hl).canonical record hmem
  have hprinted : n + 1 < 10 ^ Cursor.maxStrDigits := by
    have : Cursor.maxStrDigits < 10 ^ Cursor.maxStrDigits := Nat.lt_pow_self (by decide)
    have : Cursor.maxStrDigits = 4300 := rfl
    have := hw.small
    omega
  -- the subscription and the event are found
  have hget : World.exec i (.get item.subscriptionId) (reply (sendCount s.trace)) s.state = some (some h, s.state) := by
    obtain ⟨sub, base⟩ := h
    obtain rfl : base = sub := hw.held.base
    simp [World.exec, SubscriptionStore.get, hw.subscriptionId, hw.held.row]
  let s₀ := s.next i (.get item.subscriptionId) (some h) s.state
  have hwf : s₀.state.store.Wf := by
    rw [show s₀.state = s.state from rfl, hw.fixed.store]
    exact hr.wf
  have hlive₀ : record ∈ s₀.state.store.live s₀.state.clock record.topic := by
    rw [show s₀.state = s.state from rfl, hw.fixed.store]
    exact hlive
  obtain ⟨s₁, hrecord, hs₁, hq₁⟩ := recordAt_live reply i hwf hr.offset hlive₀
  have hstate : s₁.state = s.state := hs₁
  have hcount : sendCount s₁.trace = n := (((Quiet.refl s).next rfl).trans hq₁).count.trans hw.count
  -- the next attempt is answered by the script
  have hcached₁ : s₁.state.topics.get? record.topic = some topic := by
    rw [hstate, hw.fixed.topics]
    exact hcached
  have hreply₁ : (reply (sendCount s₁.trace)).result = .ok result := by rw [hcount, hresult]
  obtain ⟨s₂, k, hsend, hs₂, -, hsent⟩ := attemptSend_eval reply i h hcached₁ hdata hr.offset hprinted hreply₁
  have hh₂ : Held h s₂.state := by
    rw [hs₂, hstate]
    exact ⟨hw.held.row, hw.held.base⟩
  have hlogged₂ : Logged w h record log s₂.state := by
    rw [hs₂, hstate]
    exact hlogged
  have hfixed₂ : Fixed w s₂.state := by
    rw [hs₂, hstate]
    exact ⟨hw.fixed.store, hw.fixed.topics⟩
  have hqueue₂ : s₂.state.queue = s.state.queue := by rw [hs₂, hstate]
  have hposition₂ : s₂.state.subs.position h.sub.subscriptionId record.topic = o := by
    rw [hs₂, hstate]
    exact hw.position
  let complete : Snapshot cfg fuel → Snapshot cfg fuel := fun s₃ => s₃.next i (.complete item.retryId) ()
    { s₃.state with queue := s₃.state.queue.complete item.retryId }
  have hend : ∀ {s₃ : Snapshot cfg fuel}, s₃.state.queue = s.state.queue →
      Evals reply i (perform (.complete item.retryId)) s₃ (.ok ()) (complete s₃) ∧
      (complete s₃).state.queue.items.entries = [] := by
    intro s₃ hq
    refine ⟨Evals.last rfl, RetryQueue.complete_single ?_⟩
    rw [hq, hw.queued]
  -- one step of the course
  obtain ⟨m, hm⟩ : ∃ m, cfg.maxAttempts.toNat - n = m + 1 := by
    have := hw.more
    exact ⟨cfg.maxAttempts.toNat - n - 1, by omega⟩
  have hending := hw.ending
  rw [hm, course, hresult] at hending hlog
  simp only at hending hlog
  have hstart : ∀ {res s'}, Evals reply i (do
        let result ← attemptSend cfg h record (item.attempt + 1)
        if result.ack then do
          let _ ← onDelivered h record (item.attempt + 1) result
          perform (.complete item.retryId)
        else if !result.retry || ((item.attempt + 1 : Nat) : Int) ≥ cfg.maxAttempts then do
          onTerminal h record (item.attempt + 1) result
          perform (.complete item.retryId)
        else do
          recordAttempt h record (item.attempt + 1) .retry result
          let now ← perform .now
          let delay ← orRaise (backoffDelay cfg (item.attempt + 1))
          perform (.reschedule item.retryId (now + delay) (item.attempt + 1) result.reason)) s₁ res s' →
      Evals reply i (retryDelivery cfg item) s res s' := by
    intro res s' hrun
    refine Evals.call hget ?_
    simp only [hr.active, ne_eq, not_true, if_false]
    rw [hw.topic, hw.cursor]
    exact hrecord.bind hrun
  rw [hw.attempt] at hstart
  by_cases hack : result.ack = true
  · rw [if_pos hack] at hending hlog
    obtain ⟨s₃, h', attempt, hrun, -, hh', hsub, helse, hqueue, hpos, hattempts, ha, hstatus, hid, hevent⟩ :=
      onDelivered_eval reply i hh₂ hr.offset (n + 1) result
    obtain ⟨hcomplete, hidle⟩ := hend (hqueue.trans hqueue₂)
    refine ⟨complete s₃, hstart (hsend.bind ?_), .inl ⟨⟨?_, ?_⟩, ?_, ?_, ?_, hidle⟩⟩
    · rw [if_pos hack]
      exact hrun.bind hcomplete
    · exact helse.store.trans hfixed₂.store
    · exact helse.topics.trans hfixed₂.topics
    · rw [hlog]
      exact hlogged₂.concat hattempts ha hstatus hid hevent
    · have hrow : s₃.state.subs.rows.get? h'.sub.subscriptionId = some h'.sub := hh'.row
      rw [hsub, Subscription.ackedAt_subscriptionId] at hrow
      rw [← hending]
      exact hrow
    · show s₃.state.subs.position h.sub.subscriptionId record.topic = o
      rw [hpos, hposition₂, max_self]
  rw [if_neg hack] at hending hlog
  have hceiling : ((n + 1 : Nat) : Int) ≥ cfg.maxAttempts ↔ ((n + 1 : Nat) : Int) = cfg.maxAttempts := by
    have := hw.more
    omega
  by_cases hlast : (!result.retry || decide (((n + 1 : Nat) : Int) = cfg.maxAttempts)) = true
  · rw [if_pos hlast] at hending hlog
    obtain ⟨s₃, attempt, hrun, -, hh', helse, hqueue, hpos, hattempts, ha, hstatus, hid, hevent⟩ :=
      onTerminal_eval reply i hh₂ hr.offset (n + 1) result
    obtain ⟨hcomplete, hidle⟩ := hend (hqueue.trans hqueue₂)
    refine ⟨complete s₃, hstart (hsend.bind ?_), .inl ⟨⟨?_, ?_⟩, ?_, ?_, hpos, hidle⟩⟩
    · simp only [hceiling]
      rw [if_neg hack, if_pos hlast]
      exact hrun.bind hcomplete
    · exact helse.store.trans hfixed₂.store
    · exact helse.topics.trans hfixed₂.topics
    · rw [hlog]
      exact hlogged₂.concat hattempts ha hstatus hid hevent
    · rw [← hending]
      exact hh'.row
  rw [if_neg hlast] at hending hlog
  cases hdelay : backoffDelay cfg (n + 1) with
  | error e =>
    rw [hdelay] at hending
    exact absurd hending.symm (hc e)
  | ok delay =>
    rw [hdelay] at hending hlog
    simp only at hending hlog
    have hsmall : n + 1 ≤ 1024 := by
      by_contra hlarge
      rw [backoffDelay, if_neg (by omega)] at hdelay
      cases hdelay
    have hmore : ((n + 1 : Nat) : Int) < cfg.maxAttempts := by
      simp only [Bool.or_eq_true, decide_eq_true_eq, not_or] at hlast
      have := hw.more
      omega
    have hrest : cfg.maxAttempts.toNat - (n + 1) = m := by omega
    obtain ⟨s₃, k₃, attempt, hrec, hs₃, -, ha, hstatus, hid, hevent, -, hq₃⟩ :=
      recordAttempt_eval reply i s₂ h record (n + 1) .retry result
    let item' : RetryItem :=
      { item with nextRetryAt := s₃.state.clock + delay, attempt := n + 1, lastError := result.reason }
    let s₄ := s₃.next i .now s₃.state.clock s₃.state
    let queue := s₃.state.queue.reschedule item.retryId (s₃.state.clock + delay) (n + 1) result.reason
    let s₅ := s₄.next i (.reschedule item.retryId (s₃.state.clock + delay) (n + 1) result.reason) ()
      { s₃.state with queue := queue }
    have hqueue₃ : s₃.state.queue = s.state.queue := by rw [hs₃, hqueue₂]
    refine ⟨s₅, hstart (hsend.bind ?_), .inr ⟨item', ⟨?_, ?_⟩, ⟨?_, hw.held.base⟩, ?_, ?_, hw.subscriptionId,
      hw.topic, hw.cursor, rfl, hsmall, hmore, ?_, ?_, log ++ [(n + 1, .retry)], ?_, ?_⟩⟩
    · simp only [hceiling]
      rw [if_neg hack, if_neg hlast]
      exact hrec.bind (Evals.call rfl (Evals.lift hdelay (Evals.last rfl)))
    · show s₃.state.store = w.store
      rw [hs₃]
      exact hfixed₂.store
    · show s₃.state.topics = w.topics
      rw [hs₃]
      exact hfixed₂.topics
    · show s₃.state.subs.rows.get? h.sub.subscriptionId = some h.sub
      rw [hs₃]
      exact hh₂.row
    · show s₃.state.subs.position h.sub.subscriptionId record.topic = o
      rw [hs₃]
      exact hposition₂
    · refine RetryQueue.reschedule_single ?_ _ _ _
      rw [hqueue₃, hw.queued]
    · have hq₅ : Quiet s₃ s₅ := ((Quiet.refl s₃).next rfl).next rfl
      rw [hq₅.count, hq₃.count, hsent.count, hcount]
    · rw [hrest]
      exact hending
    · have hlogged₃ : Logged w h record (log ++ [(n + 1, .retry)]) s₃.state :=
        hlogged₂.concat (by rw [hs₃]; rfl) ha hstatus hid hevent
      exact hlogged₃
    · rw [hlog, hrest, List.append_assoc]
      rfl

/-- The event is delivered, or on its way. -/
def Underway (reply : Nat → Choice) (w : World) (h : Handle) (record : EventRecord) (o : Nat) (c : Course)
    (s : Snapshot cfg fuel) : Prop :=
  Finished w h record o c s ∨ ∃ n item, Waiting reply w h record o c n item s

/-- Time passes before a pass. -/
def ticked (s : Snapshot cfg fuel) (d : Nat) : Snapshot cfg fuel :=
  { s with state := { s.state with clock := s.state.clock + d } }

private theorem Finished.ticked {c : Course} (hf : Finished w h record o c s) (d : Nat) :
    Finished w h record o c (ticked s d) :=
  ⟨⟨hf.fixed.store, hf.fixed.topics⟩, hf.logged, hf.row, hf.position, hf.idle⟩

private theorem Waiting.ticked {c : Course} (hw : Waiting reply w h record o c n item s) (d : Nat) :
    Waiting reply w h record o c n item (ticked s d) :=
  ⟨⟨hw.fixed.store, hw.fixed.topics⟩, ⟨hw.held.row, hw.held.base⟩, hw.position, hw.queued, hw.subscriptionId,
    hw.topic, hw.cursor, hw.attempt, hw.small, hw.more, hw.count, hw.ending, hw.logged⟩

/-- A pass that claims nothing. -/
private theorem runOnce_idle (i : Nat) {now : Time} {batch lease : Int}
    (hclaim : s.state.queue.claimDue now batch lease = ([], s.state.queue)) :
    ∃ s', Evals reply i (runOnce cfg now batch lease) s (.ok 0) s' ∧ s'.state = s.state ∧ Quiet s s' := by
  let s₁ := s.next i (.claimDue now batch lease) [] s.state
  have hclaims : ∀ ch, World.exec i (.claimDue now batch lease) ch s.state = some ([], s.state) := by
    intro ch
    simp only [World.exec, hclaim]
  have hnone : Evals reply i (retryAll cfg []) s₁ (.ok ()) s₁ := .pure _ _
  exact ⟨s₁, Evals.call (hclaims _) (hnone.bind (.pure _ _)), rfl, (Quiet.refl s).next rfl⟩

/-- A pass that claims the event. -/
private theorem runOnce_claims (i : Nat) {c : Course} (hr : Deliverable w h record o)
    (hreply : ∀ m, ∃ result, (reply m).result = .ok result) (hc : ∀ e, c.ending ≠ .raised e)
    (hw : Waiting reply w h record o c n item s)
    (hlive : record ∈ w.store.live s.state.clock record.topic) {now t : Time} {batch lease : Int}
    {queue : RetryQueue}
    (hclaim : s.state.queue.claimDue now batch lease = ([{ item with nextRetryAt := t }], queue))
    (hqueue : queue.items.entries = [(item.retryId, { item with nextRetryAt := t })]) :
    ∃ s', Evals reply i (runOnce cfg now batch lease) s (.ok 1) s' ∧
      (Finished w h record o c s' ∨ ∃ item', Waiting reply w h record o c (n + 1) item' s') := by
  let leased : RetryItem := { item with nextRetryAt := t }
  let s₁ := s.next i (.claimDue now batch lease) [leased] { s.state with queue := queue }
  have hq : Quiet s s₁ := (Quiet.refl s).next rfl
  have hw₁ : Waiting reply w h record o c n leased s₁ :=
    ⟨⟨hw.fixed.store, hw.fixed.topics⟩, ⟨hw.held.row, hw.held.base⟩, hw.position, hqueue, hw.subscriptionId,
      hw.topic, hw.cursor, hw.attempt, hw.small, hw.more, hq.count.trans hw.count, hw.ending, hw.logged⟩
  obtain ⟨s₂, hrun, hafter⟩ := retryDelivery_eval i hr hreply hc hw₁ hlive
  have hclaims : ∀ ch, World.exec i (.claimDue now batch lease) ch s.state =
      some ([leased], { s.state with queue := queue }) := by
    intro ch
    simp only [World.exec, hclaim]
    rfl
  have hnone : Evals reply i (retryAll cfg []) s₂ (.ok ()) s₂ := .pure _ _
  exact ⟨s₂, Evals.call (hclaims _) ((Eval.bind hrun hnone).bind (.pure _ _)), hafter⟩

/-- Every pass leaves the event delivered, or on its way. -/
theorem runOnce_eval (i : Nat) {c : Course} (hr : Deliverable w h record o)
    (hreply : ∀ m, ∃ result, (reply m).result = .ok result) (hc : ∀ e, c.ending ≠ .raised e)
    (hu : Underway reply w h record o c s) (hlive : record ∈ w.store.live s.state.clock record.topic)
    (now : Time) (batch lease : Int) :
    ∃ m s', Evals reply i (runOnce cfg now batch lease) s (.ok m) s' ∧ Underway reply w h record o c s' := by
  rcases hu with hf | ⟨n, item, hw⟩
  · obtain ⟨s', hrun, hs', -⟩ := runOnce_idle i (RetryQueue.claimDue_nil hf.idle now batch lease)
    refine ⟨0, s', hrun, .inl ?_⟩
    obtain ⟨⟨hstore, htopics⟩, hlogged, hrow, hposition, hidle⟩ := hf
    rw [← hs'] at hstore htopics hlogged hrow hposition hidle
    exact ⟨⟨hstore, htopics⟩, hlogged, hrow, hposition, hidle⟩
  · rcases RetryQueue.claimDue_single hw.queued now batch lease with hclaim | ⟨t, queue, hclaim, hqueue⟩
    · obtain ⟨s', hrun, hs', hq⟩ := runOnce_idle i hclaim
      refine ⟨0, s', hrun, .inr ⟨n, item, ?_⟩⟩
      obtain ⟨⟨hstore, htopics⟩, ⟨hrow, hbase⟩, hposition, hqueued, hid, htopic, hcursor, hattempt, hsmall, hmore,
        hcount, hending, hlogged⟩ := hw
      rw [← hs'] at hstore htopics hrow hposition hqueued hlogged
      exact ⟨⟨hstore, htopics⟩, ⟨hrow, hbase⟩, hposition, hqueued, hid, htopic, hcursor, hattempt, hsmall, hmore,
        hq.count.trans hcount, hending, hlogged⟩
    · obtain ⟨s', hrun, hafter⟩ := runOnce_claims i hr hreply hc hw hlive hclaim hqueue
      exact ⟨1, s', hrun, hafter.imp_right fun h => ⟨n + 1, h.choose, h.choose_spec⟩⟩

end

/-- Passes of the retry worker, at any times and with any batch sizes and leases, during which the event
    stays in retention. -/
inductive Passes (reply : Nat → Choice) (record : EventRecord) (s : Snapshot cfg fuel) :
    Snapshot cfg fuel → Prop where
  | refl : Passes reply record s s
  | step {s₁ s₂ : Snapshot cfg fuel} {res : Except PyError Nat} (i d : Nat) (now : Time) (batch lease : Int)
      (hpasses : Passes reply record s s₁)
      (hlive : record ∈ s₁.state.store.live (s₁.state.clock + d) record.topic)
      (hpass : Evals reply i (runOnce cfg now batch lease) (ticked s₁ d) res s₂) :
      Passes reply record s s₂

section

variable {reply : Nat → Choice} {s s' s'' : Snapshot cfg fuel} {w : World} {h : Handle} {record : EventRecord}
  {o n : Nat} {item : RetryItem} {c : Course}

private theorem Underway.ticked (hu : Underway reply w h record o c s) (d : Nat) :
    Underway reply w h record o c (ticked s d) := by
  rcases hu with hf | ⟨n, item, hw⟩
  · exact .inl (hf.ticked d)
  · exact .inr ⟨n, item, hw.ticked d⟩

private theorem Underway.fixed (hu : Underway reply w h record o c s) : Fixed w s.state := by
  rcases hu with hf | ⟨n, item, hw⟩
  · exact hf.fixed
  · exact hw.fixed

/-- Whatever the passes are, the event is delivered or on its way. -/
theorem Passes.underway (hr : Deliverable w h record o)
    (hreply : ∀ m, ∃ result, (reply m).result = .ok result) (hc : ∀ e, c.ending ≠ .raised e)
    (hu : Underway reply w h record o c s) (hp : Passes reply record s s') :
    Underway reply w h record o c s' := by
  induction hp with
  | refl => exact hu
  | @step s₁ s₂ res i d now batch lease _ hlive hpass ih =>
    rw [ih.fixed.store] at hlive
    obtain ⟨m, s₂', hrun, hu'⟩ := runOnce_eval i hr hreply hc (ih.ticked d) hlive now batch lease
    obtain ⟨-, rfl⟩ := hpass.det hrun
    exact hu'

private theorem exec_clock {i : Nat} {op : Op} {ch : Choice} {w w' : World} {r : op.Res}
    (hex : World.exec i op ch w = some (r, w')) : w'.clock = w.clock := by
  cases op <;> simp only [World.exec] at hex <;> (try split at hex) <;> cases hex <;> rfl

private theorem Evals.clock {α : Type} {i : Nat} {p : M α} {res : Except PyError α}
    (hp : Evals reply i p s res s') : s'.state.clock = s.state.clock := by
  refine Eval.invariant (P := fun s' : Snapshot cfg fuel => s'.state.clock = s.state.clock) ?_ hp rfl
  intro s₁ s₂ op ch r hs₁ _ hex
  obtain ⟨⟨r', w⟩, hw, heq⟩ := Option.map_eq_some_iff.mp hex
  cases heq
  exact (exec_clock hw).trans hs₁

/-- Passes that come when the event is due bring it to its end. -/
theorem exists_passes (hr : Deliverable w h record o)
    (hreply : ∀ m, ∃ result, (reply m).result = .ok result) (hc : ∀ e, c.ending ≠ .raised e) (k : Nat) :
    ∀ {n item} {s : Snapshot cfg fuel}, Waiting reply w h record o c n item s → s.state.clock = w.clock →
      cfg.maxAttempts ≤ n + k → ∃ s', Passes reply record s s' ∧ Finished w h record o c s' := by
  induction k with
  | zero =>
    intro n item s hw _ hle
    have := hw.more
    omega
  | succ k ih =>
    intro n item s hw hclock hle
    have hw₀ := hw.ticked 0
    have hclock₀ : (ticked s 0).state.clock = w.clock := by
      rw [← hclock]
      exact Int.add_zero _
    have hlive : record ∈ w.store.live (ticked s 0).state.clock record.topic := by
      rw [hclock₀]
      exact hr.live
    rcases RetryQueue.claimDue_single hw₀.queued item.nextRetryAt 1 0 with hclaim | ⟨t, queue, hclaim, hqueue⟩
    · exact absurd (congrArg Prod.fst hclaim) (RetryQueue.claimDue_due hw₀.queued 0)
    · obtain ⟨s₁, hrun, hafter⟩ := runOnce_claims 0 hr hreply hc hw₀ hlive hclaim hqueue
      have hstep : ∀ {s'}, Passes reply record s₁ s' → Passes reply record s s' := by
        have hfirst : Passes reply record s s₁ := by
          refine .step 0 0 item.nextRetryAt 1 0 .refl ?_ hrun
          rw [hw.fixed.store]
          exact hlive
        intro s' hp
        induction hp with
        | refl => exact hfirst
        | step i d now batch lease _ hlive hpass ih => exact .step i d now batch lease ih hlive hpass
      rcases hafter with hf | ⟨item', hw'⟩
      · exact ⟨s₁, hstep .refl, hf⟩
      · obtain ⟨s', hp, hf⟩ := ih hw' (hrun.clock.trans hclock₀) (by omega)
        exact ⟨s', hstep hp, hf⟩

end

/-! ## When the engines agree -/

/-- The publisher with a retry queue, or without. -/
abbrev PublisherConfig.withQueue (cfg : PublisherConfig) (queue : Bool) : PublisherConfig :=
  { cfg with retryQueue := queue }

private theorem course_withQueue (reply : Nat → Choice) (queue : Bool) (remaining : Nat) :
    ∀ base n, course (cfg.withQueue queue) reply base n remaining = course cfg reply base n remaining := by
  induction remaining with
  | zero =>
    intro base n
    rfl
  | succ remaining ih =>
    intro base n
    have hdelay : backoffDelay (cfg.withQueue queue) n = backoffDelay cfg n := rfl
    unfold course
    rw [hdelay, ih]

/-- Both deliveries wrote down the same attempts, of which the last one settled the event, and left the same
    subscription with the same position. -/
structure Agreement (w : World) (h : Handle) (record : EventRecord) (w₁ w₂ : World) : Prop where
  log : ∃ k last, (last = .delivered ∨ last = .deadLetter) ∧
    Logged w h record ((List.range' 1 k).map (fun m => (m, AttemptStatus.retry)) ++ [(1 + k, last)]) w₁ ∧
    Logged w h record ((List.range' 1 k).map (fun m => (m, AttemptStatus.retry)) ++ [(1 + k, last)]) w₂
  row : w₂.subs.rows.get? h.sub.subscriptionId = w₁.subs.rows.get? h.sub.subscriptionId
  position : w₂.subs.position h.sub.subscriptionId record.topic =
    w₁.subs.position h.sub.subscriptionId record.topic

/-- The inline loop delivers the event, the first attempt and some passes empty the queue, and however the
    passes are made that empty it, the outcome is that of the inline loop. -/
def RetriesAgree (cfg : PublisherConfig) (fuel : Nat) (reply : Nat → Choice) (i : Nat) (w : World) (h : Handle)
    (record : EventRecord) : Prop :=
  ∃ (s₁ : Snapshot (cfg.withQueue false) fuel) (h₁ : Handle) (s₂ : Snapshot (cfg.withQueue true) fuel)
      (h₂ : Handle),
    Evals reply i (deliverOne (cfg.withQueue false) h record) ⟨w, []⟩ (.ok h₁) s₁ ∧
    Evals reply i (deliverOne (cfg.withQueue true) h record) ⟨w, []⟩ (.ok h₂) s₂ ∧
    (∃ s₃, Passes reply record s₂ s₃ ∧ s₃.state.queue.items.entries = []) ∧
    ∀ s₃, Passes reply record s₂ s₃ → s₃.state.queue.items.entries = [] →
      Agreement w h record s₁.state s₃.state

section

variable {reply : Nat → Choice} {w : World} {h : Handle} {record : EventRecord} {o : Nat}

/-- A delivery that moved the position onto the event has finished. -/
private theorem Delivers.finished {c : Course} {s : Snapshot cfg fuel} {h' : Handle} {trace : List (Entry cfg fuel)}
    (hd : Delivers h record o 1 c ⟨w, trace⟩ s h')
    (hposition : c.ending.position (w.subs.position h.sub.subscriptionId record.topic) o = o)
    (hidle : w.queue.items.entries = []) (hqueue : s.state.queue = w.queue) : Finished w h record o c s where
  fixed := ⟨hd.elsewhere.store, hd.elsewhere.topics⟩
  logged := hd.attempts
  row := by
    have hrow := hd.held.row
    rwa [hd.subscriptionId, hd.sub] at hrow
  position := hd.position.trans hposition
  idle := by rw [hqueue, hidle]

private theorem Deliverable.canonical (hr : Deliverable w h record o) :
    ∃ bytes, canonicalize (.obj record.data) = .ok bytes := by
  obtain ⟨log, hlog, hmem, -⟩ := EventStore.mem_live.mp hr.live
  exact (hr.wf _ log hlog).canonical record hmem

/-- After the first attempt the event is delivered, or on its way. -/
private theorem deliverQueued_underway (i : Nat) (hmax : 1 ≤ cfg.maxAttempts) (hr : Deliverable w h record o)
    (hreply : ∀ m, ∃ result, (reply m).result = .ok result) :
    ∃ (s : Snapshot cfg fuel) (h' : Handle), Evals reply i (deliverQueued cfg h record) ⟨w, []⟩ (.ok h') s ∧
      Underway reply w h record o (course cfg reply 0 1 cfg.maxAttempts.toNat) s ∧ s.state.clock = w.clock := by
  obtain ⟨topic, hcached⟩ := hr.cached
  obtain ⟨result, hresult⟩ := hreply 0
  have hfresh : RetryIdsFresh w := by
    intro n _
    simp [Dict.get?, hr.idle, Dict.get?.go]
  obtain ⟨s', h', hrun, hd, hleaves⟩ := deliverQueued_eval
    (s := (⟨w, []⟩ : Snapshot cfg fuel)) reply i
    hr.canonical hr.offset hr.held hcached hfresh
  have hcount : sendCount ([] : List (Entry cfg fuel)) = 0 := rfl
  rw [hcount] at hrun hd hleaves
  obtain ⟨m, hm⟩ : ∃ m, cfg.maxAttempts.toNat = m + 1 := ⟨cfg.maxAttempts.toNat - 1, by omega⟩
  rw [hm]
  unfold firstCourse at hrun hd hleaves
  unfold course
  rw [hresult] at hrun hd hleaves ⊢
  simp only at hrun hd hleaves ⊢
  by_cases hack : result.ack = true
  · rw [if_pos hack] at hrun hd hleaves ⊢
    exact ⟨s', h', hrun, .inl (hd.finished (max_eq_right (Int.le_of_lt hr.next)) hr.idle hleaves),
      hd.elsewhere.clock⟩
  rw [if_neg hack] at hrun hd hleaves ⊢
  have hceiling : cfg.maxAttempts ≤ 1 ↔ ((1 : Nat) : Int) = cfg.maxAttempts := by omega
  simp only [hceiling] at hrun hd hleaves
  by_cases hlast : (!result.retry || decide (((1 : Nat) : Int) = cfg.maxAttempts)) = true
  · rw [if_pos hlast] at hrun hd hleaves ⊢
    exact ⟨s', h', hrun, .inl (hd.finished rfl hr.idle hleaves), hd.elsewhere.clock⟩
  rw [if_neg hlast] at hrun hd hleaves ⊢
  have hdelay : backoffDelay cfg 1 = .ok (min (cfg.retryInitialDelay * 2 ^ (1 - 1)) cfg.retryMaxDelay) :=
    if_pos (by decide)
  rw [hdelay]
  obtain ⟨item, n, hqueue, -, -, -, hid, htopic, hcursor, -, hattempt⟩ := hleaves
  have hmore : ((1 : Nat) : Int) < cfg.maxAttempts := by
    simp only [Bool.or_eq_true, decide_eq_true_eq, not_or] at hlast
    omega
  have hrest : cfg.maxAttempts.toNat - 1 = m := by omega
  have hheld : Held h s'.state := ⟨by
    have hrow := hd.held.row
    rwa [hd.subscriptionId, hd.sub] at hrow, hr.held.base⟩
  refine ⟨s', h', hrun, .inr ⟨1, item, ⟨hd.elsewhere.store, hd.elsewhere.topics⟩, hheld, hd.position, ?_, hid,
    htopic, hcursor, hattempt, by decide, hmore, hd.count, ?_, [(1, .retry)], hd.attempts, ?_⟩, hd.elsewhere.clock⟩
  · rw [hqueue]
    exact RetryQueue.enqueue_single hr.idle
  · rw [hrest]
  · rw [hrest]
    rfl

/-- The inline loop does what its course says. -/
private theorem deliverInline_course (i : Nat) (hr : Deliverable w h record o) :
    ∃ (s : Snapshot (cfg.withQueue false) fuel) (h' : Handle),
      Evals reply i (deliverOne (cfg.withQueue false) h record) ⟨w, []⟩
        ((course cfg reply 0 1 cfg.maxAttempts.toNat).ending.result h') s ∧
      Delivers h record o 1 (course cfg reply 0 1 cfg.maxAttempts.toNat) ⟨w, []⟩ s h' ∧
      s.state.queue = w.queue := by
  obtain ⟨topic, hcached⟩ := hr.cached
  obtain ⟨s', h', hrun, hd, hqueue⟩ := deliverInline_eval reply i
    (s := (⟨w, []⟩ : Snapshot (cfg.withQueue false) fuel)) hr.canonical hr.offset cfg.maxAttempts.toNat (by decide : 1 ≤ 1025) hr.held hcached
  have hcount : sendCount ([] : List (Entry (cfg.withQueue false) fuel)) = 0 := rfl
  rw [hcount, course_withQueue] at hrun hd
  exact ⟨s', h', hrun, hd, hqueue⟩

/-- If the delay after attempt 1025 is asked for, the inline loop raises. -/
private theorem not_agree_of_overflow (fuel i : Nat) (hr : Deliverable w h record o)
    (hreply : ∀ m, ∃ result, (reply m).result = .ok result) (hmax : 1025 < cfg.maxAttempts)
    (hfails : ∀ m < 1025, (reply m).Retryable) : ¬ RetriesAgree cfg fuel reply i w h record := by
  rintro ⟨s₁, h₁, -, -, hinline, -⟩
  obtain ⟨s, h', hrun, -, -⟩ := deliverInline_course i hr
  have hraises := (course_raises_iff hreply cfg.maxAttempts.toNat (by decide : 1 ≤ 1025)
    (by omega)).mpr ⟨hmax, fun m hm => by
      rw [Nat.zero_add]
      exact hfails m (by omega)⟩
  obtain ⟨e, he⟩ := hraises
  rw [he] at hrun
  cases ((hinline.det hrun).1)

end

namespace Sample

/-- The first event of the topic. -/
def record : EventRecord :=
  { eventId := "evt_0", topic := "t", cursor := "t:0000000000000000", eventType := "x"
    source := "a2a://publisher.example", data := [], subject := none, createdAt := 0 }

/-- An active subscription to the topic. -/
def subscriber : Subscription :=
  { subscriptionId := "sub_0", status := .active, subscriberCardUrl := "https://sub.example/card"
    topics := ["t"], selector := none
    delivery := { mode := .webhook, resolvedUrl := some "https://sub.example/events" }
    createdAt := 0, leaseUntil := 86400000000, cursors := ∅ }

/-- The event is appended and waits for its delivery. -/
def world : World :=
  { uuids := 1
    store := ⟨(∅ : Dict String TopicLog).set "t" { topic := topic, events := [record], nextOffset := 1 }⟩
    subs :=
      { rows := (∅ : Dict String Subscription).set "sub_0" subscriber
        positions := (∅ : Dict String (Dict String Int)).set "sub_0" ((∅ : Dict String Int).set "t" (-1)) }
    topics := (∅ : Dict String Topic).set "t" topic }

theorem record_liesAt : record.LiesAt "t" 0 := ⟨rfl, rfl⟩

theorem deliverable : Deliverable world ⟨subscriber, subscriber⟩ record 0 where
  wf := by
    intro name log hlog
    simp only [world, Dict.get?_set, Dict.get?_empty] at hlog
    split at hlog
    · rename_i hname
      cases hlog
      subst hname
      refine ⟨rfl, fun r hr => ?_, List.pairwise_singleton _ _, fun r hr => ?_⟩
      · obtain rfl := List.mem_singleton.mp hr
        exact ⟨0, by decide, record_liesAt⟩
      · obtain rfl := List.mem_singleton.mp hr
        exact ⟨_, rfl⟩
    · cases hlog
  offset := Cursor.offsetOf_encode (by decide) record_liesAt.cursor
  live := by
    refine EventStore.mem_live.mpr ⟨_, rfl, List.mem_singleton_self _, ?_⟩
    decide
  held := ⟨rfl, rfl⟩
  active := rfl
  cached := ⟨topic, rfl⟩
  next := by decide
  idle := rfl

end Sample

end A2AEvents
