import A2AEvents.Spec.PositionsCorrect

/-!
# Retries

The second route to the transport. A queued retry is the only record of an event that the
dispatch position has already passed, so it matters when an item leaves the queue; and a
retry has to respect leases and grants just as catch-up does.

## Key results

- `released_of_run`: why items leave the retry queue
- `gated_of_run`: sends are admitted by a check of status, lease and grants
-/

namespace A2AEvents

open Async Publisher

variable {cfg : PublisherConfig} {fuel : Nat}

/-! ## Leaving the queue -/

private theorem inSequence_suffices :
    @Suffices cfg fuel {} fun c act => inSequence c act = true where
  start := fun h => ⟨h, fun _ => ⟨rfl, rfl⟩⟩
  task := by
    intro c i ch h
    refine ⟨h, fun t _ o _ _ => ?_⟩
    unfold Admissible
    split
    · exact ⟨(fun ho => (by cases ho)), (fun hm => (by cases hm)), fun hk => (by cases hk)⟩
    · exact fun row _ => ⟨(fun hg => (by cases hg)), fun hb => (by cases hb)⟩
    · exact fun hb => (by cases hb)
    · trivial
  crash := fun _ => rfl

/-- A queued item stays, or it was removed when its outcome was on record, its event out of
    retention, or its subscription gone or not active. -/
theorem released_of_run {backend : Backend} {clock : Time} {authorizer : Option AllowlistAuthorizer}
    {a b : Run.Config cfg fuel}
    (ha : Config.Run (fun c act => inSequence c act = true)
      (initial cfg fuel backend clock authorizer) a)
    (hb : Config.Run (fun c act => inSequence c act = true) a b) {id : String} {item : RetryItem}
    (hitem : a.state.state.queue.items.get? id = some item) :
    (∃ item', b.state.state.queue.items.get? id = some item' ∧ item'.Alike item) ∨
      ∃ e ∈ b.state.trace, Entry.Removes id item e ∧ e.before.Released item := by
  have hfit : Regime.Fits {} cfg := ⟨(fun h => (by cases h)), fun h => (by cases h)⟩
  have hno : ({} : Regime).bounded = true → backend = .live := fun h => (by cases h)
  obtain ⟨later, hlater, hkept⟩ := (grows_of_run hfit inSequence_suffices hno ha hb).trace
  have hremovals := (inv_of_run hfit inSequence_suffices hno (ha.trans hb)).removals
  rcases hkept id item hitem with hstays | ⟨e, he, hremoves⟩
  · exact .inl hstays
  · have hmem : e ∈ b.state.trace := by
      rw [hlater]
      exact List.mem_append_right _ he
    refine .inr ⟨e, hmem, hremoves, ?_⟩
    obtain ⟨task, op, res, w⟩ := e
    cases op <;> try exact hremoves.elim
    obtain ⟨rfl, queued, hqueued, halike⟩ := hremoves
    exact (hremovals _ hmem _ rfl queued hqueued).alike halike.symm

/-- A retry that is delivered. -/
theorem released_of_run_sample : ∃ a b : Run.Config Sample.queued 5, ∃ item,
    a.state.state.queue.items.get? "rty_4" = some item ∧
    b.state.state.queue.items.get? "rty_4" = none ∧
    ∃ e ∈ b.state.trace, Entry.Removes "rty_4" item e ∧ e.before.Released item := by
  have hrun : ((initial Sample.queued 5 .live 0 none).runsWith inSequence
      (Sample.subscribed ++ Sample.published 2 11 Sample.failing)).any (fun a =>
      (a.state.state.queue.items.get? "rty_4").isSome &&
      (a.runsWith inSequence (.env (.tick 2000000) :: Sample.call 4 (.runOnce 2000000 10 60) 9)).any
        fun b => b.state.state.queue.items.get? "rty_4" = none) = true := by
    decide +kernel
  obtain ⟨a, ha, hp⟩ := Config.Run.of_any hrun
  simp only [Bool.and_eq_true] at hp
  obtain ⟨item, hitem⟩ := Option.isSome_iff_exists.mp hp.1
  obtain ⟨b, hb, hgone⟩ := Config.Run.of_any hp.2
  have hgone : b.state.state.queue.items.get? "rty_4" = none := of_decide_eq_true hgone
  refine ⟨a, b, item, hitem, hgone, ?_⟩
  rcases released_of_run ha hb hitem with ⟨item', hitem', -⟩ | hreleased
  · rw [hgone] at hitem'
    cases hitem'
  · exact hreleased

/-- The reasons for which a client would give a retry up. -/
def World.Discharged (w : World) (item : RetryItem) : Prop :=
  (∃ a ∈ w.subs.attempts, a.subscriptionId = item.subscriptionId ∧ a.eventId = item.eventId ∧
    (a.status = .delivered ∨ a.status = .deadLetter)) ∨
  (∀ r ∈ w.store.live w.clock item.topic, r.cursor ≠ item.cursor) ∨
  (w.subs.rows.get? item.subscriptionId).any (fun row => row.status = .deleted) = true

instance (w : World) (item : RetryItem) : Decidable (w.Discharged item) :=
  inferInstanceAs (Decidable (_ ∨ _ ∨ _))

/-- Whether a call completes a queued item that is not discharged. -/
private def drops {cfg : PublisherConfig} {fuel : Nat} (retryId : String) (e : Entry cfg fuel) : Bool :=
  match e with
  | ⟨_, .complete id, _, w⟩ =>
    id = retryId && (w.queue.items.get? retryId).any fun item => !decide (w.Discharged item)
  | _ => false

private theorem removes_of_drops {cfg : PublisherConfig} {fuel : Nat} {retryId : String} {e : Entry cfg fuel}
    (h : drops retryId e = true) : ∃ item, Entry.Removes retryId item e ∧ ¬ e.before.Discharged item := by
  obtain ⟨task, op, res, w⟩ := e
  cases op <;> simp only [drops, Bool.false_eq_true] at h
  simp only [Bool.and_eq_true, decide_eq_true_eq] at h
  obtain ⟨rfl, hany⟩ := h
  rename_i id
  cases hitem : w.queue.items.get? id with
  | none => simp [hitem] at hany
  | some item =>
    rw [hitem] at hany
    exact ⟨item, ⟨rfl, item, hitem, .refl _⟩, by simpa using hany⟩

/-- An expired lease is enough to drop a retry, although the subscription is renewed later. -/
theorem expired_retry_dropped : ∃ c : Run.Config Sample.queued 5,
    Config.Run (fun c act => inSequence c act = true) (initial Sample.queued 5 .live 0 none) c ∧
    (∃ e ∈ c.state.trace, ∃ item, Entry.Removes "rty_4" item e ∧ ¬ e.before.Discharged item) ∧
    (c.state.state.subs.rows.get? "sub_0").any (fun row => row.status = .active) = true := by
  have hrun : ((initial Sample.queued 5 .live 0 none).runsWith inSequence
      (Sample.subscribed ++ Sample.published 2 11 Sample.failing ++
        .env (.tick 86400000000) :: Sample.call 4 (.getSubscription "sub_0") 2 ++
        Sample.call 5 (.runOnce 86400000000 10 60) 3 ++ Sample.call 6 (.renew "sub_0" 86400) 2)).any
      (fun c => c.state.trace.any (drops "rty_4") && (c.state.state.subs.rows.get? "sub_0").any fun row => row.status = .active) = true := by
    decide +kernel
  obtain ⟨c, hc, hp⟩ := Config.Run.of_any hrun
  simp only [Bool.and_eq_true, List.any_eq_true] at hp
  obtain ⟨⟨e, he, htest⟩, hactive⟩ := hp
  exact ⟨c, hc, ⟨e, he, removes_of_drops htest⟩, hactive⟩

/-! ## Admission -/

/-- A retry that finds its subscription active finds its lease running and the delivery
    authorized. -/
def retryAdmitted (w : World) (j : Job) (o : Op) : Bool :=
  match o with
  | .get id =>
    !j.isRetry || (w.subs.rows.get? id).all fun row =>
      row.status ≠ .active || (w.clock < row.leaseUntil && w.deliveryAuthorized row)
  | _ => true

/-- Calls of which renewals, acks and retries do not overlap with others. -/
def withoutOverlap (c : Run.Config cfg fuel) : Action (sem cfg fuel).traced → Bool
  | .start j => callable j c.state.state
  | .task i _ => alone (Regime.exclusive { gated := true }) c i
  | .env _ => true
  | .crash => true

/-- The same with retries of admitted deliveries only. -/
def retriesAdmitted (c : Run.Config cfg fuel) (act : Action (sem cfg fuel).traced) : Bool :=
  withoutOverlap c act &&
    match act with
    | .task i _ => calls c i (retryAdmitted c.state.state)
    | _ => true

private theorem retryAdmitted_admissible {j : Job} {o : Op} {ch : Choice} {s : Snapshot cfg fuel}
    (h : retryAdmitted s.state j o = true) : Admissible { gated := true } j o ch s := by
  unfold Admissible
  split
  · exact ⟨(fun ho => (by cases ho)), (fun hm => (by cases hm)), fun hk => (by cases hk)⟩
  · intro row hrow
    refine ⟨fun _ hj hactive => ?_, fun hb => (by cases hb)⟩
    simp only [retryAdmitted, hj, hrow, hactive, Bool.not_true, Bool.false_or, Option.all_some,
      ne_eq, not_true_eq_false, decide_false, Bool.and_eq_true, decide_eq_true_eq] at h
    exact h
  · exact fun hb => (by cases hb)
  · trivial

private theorem retriesAdmitted_suffices :
    @Suffices cfg fuel { gated := true } fun c act => retriesAdmitted c act = true where
  start := by
    intro c j h
    simp only [retriesAdmitted, withoutOverlap, Bool.and_true] at h
    exact ⟨h, fun _ => ⟨rfl, rfl⟩⟩
  task := by
    intro c i ch h
    simp only [retriesAdmitted, withoutOverlap, Bool.and_eq_true] at h
    exact ⟨h.1, fun t ht o k hp => retryAdmitted_admissible (calls_spec h.2 ht hp)⟩
  crash := fun _ => rfl

/-- While retries find their subscriptions in order, every send is preceded by the check of its
    task that found the subscription active, its lease running and the delivery authorized. -/
theorem gated_of_run {backend : Backend} {clock : Time} {authorizer : Option AllowlistAuthorizer}
    {a : Run.Config cfg fuel}
    (ha : Config.Run (fun c act => retriesAdmitted c act = true)
      (initial cfg fuel backend clock authorizer) a) : Gated a.state := by
  have hfit : Regime.Fits { gated := true } cfg := ⟨(fun h => (by cases h)), fun h => (by cases h)⟩
  have hno : ({ gated := true } : Regime).bounded = true → backend = .live := fun h => (by cases h)
  exact (inv_of_run hfit retriesAdmitted_suffices hno ha).gated rfl

/-- A first attempt and a retry, both within the lease. -/
theorem gated_of_run_sample : ∃ a : Run.Config Sample.queued 5,
    sends a.state.trace "sub_0" "t" = [(0, 1), (0, 2)] ∧ Gated a.state := by
  have hrun : ((initial Sample.queued 5 .live 0 none).runsWith retriesAdmitted
      (Sample.subscribed ++ Sample.published 2 11 Sample.failing ++
        .env (.tick 2000000) :: Sample.call 4 (.runOnce 2000000 10 60) 9)).any
      (fun a => sends a.state.trace "sub_0" "t" = [(0, 1), (0, 2)]) = true := by
    decide +kernel
  obtain ⟨a, ha, hsends⟩ := Config.Run.of_any hrun
  exact ⟨a, of_decide_eq_true hsends, gated_of_run ha⟩

/-- The call took a subscription up and found its lease run out. -/
def Entry.findsLapsed : Entry cfg fuel → Bool
  | ⟨_, .get id, _, w⟩ => (w.subs.rows.get? id).any fun row => row.leaseUntil ≤ w.clock
  | _ => false

/-- A send after a check that found the lease run out was not admitted. -/
theorem not_gated {s : Snapshot cfg fuel} {n : Nat} {e : Entry cfg fuel}
    (hat : s.trace[n]? = some e) (hsend : e.isSend = true)
    (hlapsed : (lastTakeUp (s.trace.take n) e.task).any Entry.findsLapsed = true) : ¬ Gated s := by
  intro hgated
  obtain ⟨hlt, hget⟩ := List.getElem?_eq_some_iff.mp hat
  have hsplit := List.take_append_drop n s.trace
  rw [List.drop_eq_getElem_cons hlt, hget] at hsplit
  obtain ⟨i, op, res, w⟩ := e
  cases op <;> simp only [Entry.isSend, Bool.false_eq_true] at hsend
  obtain ⟨check, hcheck, hadmits⟩ := hgated _ _ _ hsplit.symm _ _ _ _ rfl
  rw [hcheck] at hlapsed
  obtain ⟨k, op, res, w⟩ := check
  cases op <;> simp only [Entry.findsLapsed, Option.any_some, Bool.false_eq_true] at hlapsed
  obtain ⟨-, row, hrow, -, hlease, -⟩ := hadmits
  rw [hrow] at hlapsed
  exact absurd hlease (Int.not_lt.mpr (by simpa using hlapsed))

/-- A retry is sent although the lease ran out since the first attempt. -/
theorem lapsed_retry_sent : ∃ c : Run.Config Sample.queued 5,
    Config.Run (fun c act => withoutOverlap c act = true) (initial Sample.queued 5 .live 0 none) c ∧
      ¬ Gated c.state := by
  have hrun : ((initial Sample.queued 5 .live 0 none).runsWith withoutOverlap
      (Sample.subscribed ++ Sample.published 2 11 Sample.failing ++
        .env (.tick 86400000000) :: Sample.call 4 (.runOnce 86400000000 10 60) 4)).any
      (fun c => (c.state.trace[47]?).any fun e => Entry.isSend e &&
        (lastTakeUp (c.state.trace.take 47) e.task).any Entry.findsLapsed) = true := by
    decide +kernel
  obtain ⟨c, hc, hp⟩ := Config.Run.of_any hrun
  cases hat : c.state.trace[47]? with
  | none => simp [hat] at hp
  | some e =>
    simp only [hat, Option.any_some, Bool.and_eq_true] at hp
    exact ⟨c, hc, not_gated hat hp.1 hp.2⟩

end A2AEvents
