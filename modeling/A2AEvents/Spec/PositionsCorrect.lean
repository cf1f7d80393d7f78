import A2AEvents.Spec.Runs

/-!
# Dispatch positions

The dispatch position of a subscription decides which events it is still sent. It lies
below the head of the log unless a client names a cursor beyond it, and it only moves
forward unless a retry dead-letters an event that catch-up has already passed.

## Key results

- `belowHeads_of_run`: positions and acked cursors stay below the heads
- `position_le_of_run`: positions never move back
-/

namespace A2AEvents

open Async Publisher

variable {cfg : PublisherConfig} {fuel : Nat}

/-! ## Positions and heads -/

/-- The positions of every subscription in its topics, and its acked cursors, lie below the
    heads. -/
def World.BelowHeads (w : World) : Prop :=
  ∀ id row, w.subs.rows.get? id = some row → ∀ topic ∈ row.topics,
    w.subs.position id topic < w.store.count topic ∧
    ∀ cursor, row.cursors.get? topic = some cursor →
      ∃ o, Cursor.offsetOf cursor = .ok o ∧ o < w.store.count topic

/-- The cursor that a client hands in lies below the head: the one of an ack that finds its
    subscription active and holding the topic, and the one that a subscribe resumes after. -/
def clientBelowHead (w : World) (j : Job) (o : Op) : Bool :=
  match j, o with
  | .ack _ cursor, .get id =>
    match w.subs.rows.get? id, Cursor.split cursor with
    | some row, .ok (topic, offset) =>
      row.status ≠ .active || row.leaseUntil ≤ w.clock || topic ∉ row.topics ||
        offset < w.store.count topic
    | _, _ => true
  | .subscribe _, .read topic (some from_) (some _) _ =>
    match Cursor.split from_ with
    | .ok (name, offset) => name ≠ topic || offset < w.store.count topic
    | .error _ => true
  | _, _ => true

/-- Sequences of calls: acks and retries do not overlap with other calls. -/
def inSequence (c : Run.Config cfg fuel) : Action (sem cfg fuel).traced → Bool
  | .start j => callable j c.state.state
  | .task i _ => alone (Regime.exclusive {}) c i
  | .env _ => true
  | .crash => true

/-- The same with the cursors of clients below the heads. -/
def cursorsBelowHeads (c : Run.Config cfg fuel) (act : Action (sem cfg fuel).traced) : Bool :=
  inSequence c act &&
    match act with
    | .task i _ => calls c i (clientBelowHead c.state.state)
    | _ => true

/-- What `clientBelowHead` tests is what a bounded run needs. -/
private theorem clientBelowHead_admissible {j : Job} {o : Op} {ch : Choice} {s : Snapshot cfg fuel}
    (h : clientBelowHead s.state j o = true) : Admissible { bounded := true } j o ch s := by
  unfold Admissible
  split
  · exact ⟨(fun ho => (by cases ho)), (fun hm => (by cases hm)), fun hk => (by cases hk)⟩
  · rename_i id
    intro row hrow
    refine ⟨(fun hg => (by cases hg)), fun _ cursor hj hserved topic o hsplit hheld => ?_⟩
    cases j <;> simp only [Job.acks?, reduceCtorEq, Option.some.injEq] at hj
    subst hj
    simp only [clientBelowHead, hrow, hsplit] at h
    simp only [Subscription.Lapsed, not_or, not_not] at hserved
    simpa [hserved.1, hserved.2, hheld] using h
  · rename_i topic from_ to_ limit
    intro _ hj o hsplit
    cases j <;> simp only [Job.isSubscribe, reduceCtorEq] at hj
    simpa [clientBelowHead, hsplit] using h
  · trivial

private theorem cursorsBelowHeads_suffices :
    @Suffices cfg fuel { bounded := true } fun c act => cursorsBelowHeads c act = true where
  start := by
    intro c j h
    simp only [cursorsBelowHeads, inSequence, Bool.and_true] at h
    exact ⟨h, fun _ => ⟨rfl, rfl⟩⟩
  task := by
    intro c i ch h
    simp only [cursorsBelowHeads, inSequence, Bool.and_eq_true] at h
    exact ⟨h.1, fun t ht o k hp => clientBelowHead_admissible (calls_spec h.2 ht hp)⟩
  crash := fun _ => rfl

theorem Bounded.belowHeads {s : Snapshot cfg fuel} (h : Bounded s) : s.state.BelowHeads := by
  intro id row hrow topic _
  refine ⟨h.position id topic, fun cursor hcursor => ?_⟩
  obtain ⟨o, hsplit, ho⟩ := h.acked id row topic cursor hrow hcursor
  exact ⟨o, by simp [Cursor.offsetOf, hsplit, Except.map], ho⟩

/-- While the cursors of clients lie below the heads, so do all positions and acked cursors.
    An event that is appended later lies beyond the positions of every subscription. -/
theorem belowHeads_of_run {clock : Time} {authorizer : Option AllowlistAuthorizer}
    {a b : Run.Config cfg fuel}
    (ha : Config.Run (fun c act => cursorsBelowHeads c act = true)
      (initial cfg fuel .live clock authorizer) a)
    (hb : Config.Run (fun c act => cursorsBelowHeads c act = true) a b) :
    a.state.state.BelowHeads ∧ ∀ topic, ∀ r ∈ appended b.state.trace topic,
      r ∉ appended a.state.trace topic →
        ∃ o, r.LiesAt topic o ∧ ∀ id, a.state.state.subs.position id topic < o := by
  have hfit : Regime.Fits { bounded := true } cfg := ⟨(fun h => (by cases h)), fun h => (by cases h)⟩
  have hinv := inv_of_run hfit cursorsBelowHeads_suffices (fun _ => rfl) ha
  have hgrows := grows_of_run hfit cursorsBelowHeads_suffices (fun _ => rfl) ha hb
  have hbounded := hinv.bounded rfl
  refine ⟨hbounded.belowHeads, fun topic r hr hnew => ?_⟩
  rcases hgrows.appended topic r hr with hold | ⟨o, ho, hat⟩
  · exact absurd hold hnew
  · refine ⟨o, hat, fun id => ?_⟩
    have := hbounded.position id topic
    omega

/-- A subscription is sent an event and acks it. -/
theorem belowHeads_of_run_sample : ∃ a b : Run.Config Sample.config 5,
    (a.state.state.subs.position "sub_0" "t" = 0 ∧ a.state.state.store.count "t" = 1) ∧
    (appended b.state.trace "t").length = 2 ∧ a.state.state.BelowHeads ∧
    ∀ topic, ∀ r ∈ appended b.state.trace topic, r ∉ appended a.state.trace topic →
      ∃ o, r.LiesAt topic o ∧ ∀ id, a.state.state.subs.position id topic < o := by
  have hrun : ((initial Sample.config 5 .live 0 none).runsWith cursorsBelowHeads
      (Sample.subscribed ++ Sample.published 2 13 ++
        Sample.call 4 (.ack "sub_0" "t:0000000000000000") 4)).any (fun a =>
      (a.state.state.subs.position "sub_0" "t" = 0 ∧ a.state.state.store.count "t" = 1 : Bool) &&
      (a.runsWith cursorsBelowHeads (Sample.call 5 (.publish "t" "x" [] none) 1)).any fun b =>
        (appended b.state.trace "t").length = 2) = true := by
    decide +kernel
  obtain ⟨a, ha, hp⟩ := Config.Run.of_any hrun
  simp only [Bool.and_eq_true, decide_eq_true_eq] at hp
  obtain ⟨b, hb, hlen⟩ := Config.Run.of_any hp.2
  exact ⟨a, b, hp.1, by simpa using hlen, belowHeads_of_run ha hb⟩

/-- An ack of a cursor beyond the head of an empty log is accepted: the position is then past
    the events that are still to come. -/
theorem ack_not_belowHeads : ∃ c : Run.Config Sample.config 5,
    Config.Run (fun c act => inSequence c act = true) (initial Sample.config 5 .live 0 none) c ∧
      ¬ c.state.state.BelowHeads := by
  have hrun : ((initial Sample.config 5 .live 0 none).runsWith inSequence
      (Sample.subscribed ++ Sample.call 2 (.ack "sub_0" "t:0000000000000007") 5)).any (fun c =>
      (c.state.state.subs.rows.get? "sub_0").any (fun row => "t" ∈ row.topics) &&
        (c.state.state.subs.position "sub_0" "t" = 7 ∧ c.state.state.store.count "t" = 0 : Bool)) =
      true := by
    decide +kernel
  obtain ⟨c, hc, hp⟩ := Config.Run.of_any hrun
  simp only [Bool.and_eq_true, decide_eq_true_eq] at hp
  obtain ⟨hrow, hposition, hcount⟩ := hp
  refine ⟨c, hc, fun hbelow => ?_⟩
  cases hget : c.state.state.subs.rows.get? "sub_0" with
  | none => simp [hget] at hrow
  | some row =>
    rw [hget] at hrow
    have hheld : "t" ∈ row.topics := by simpa using hrow
    have hlt := (hbelow "sub_0" row hget "t" hheld).1
    rw [hposition, hcount] at hlt
    exact absurd hlt (by decide)

/-! ## Positions only move forward -/

/-- The transport's answer to a retry does not dead-letter an event behind the position of its
    subscription. -/
def deadLettersAhead (cfg : PublisherConfig) (w : World) (ch : Choice) (j : Job) (o : Op) : Bool :=
  match o, ch.result with
  | .send sub record attempt _, .ok result =>
    !j.isRetry || !result.terminal cfg attempt ||
      match Cursor.offsetOf record.cursor with
      | .ok offset => w.subs.position sub.subscriptionId record.topic ≤ offset
      | .error _ => false
  | _, _ => true

/-- Sequences of calls in which every dead letter of a retry is ahead. -/
def retriesAhead (c : Run.Config cfg fuel) (act : Action (sem cfg fuel).traced) : Bool :=
  inSequence c act &&
    match act with
    | .task i ch => calls c i (deadLettersAhead cfg c.state.state ch)
    | _ => true

private theorem deadLettersAhead_admissible {j : Job} {o : Op} {ch : Choice} {s : Snapshot cfg fuel}
    (h : deadLettersAhead cfg s.state ch j o = true) : Admissible { monotone := true } j o ch s := by
  unfold Admissible
  split
  · rename_i sub record attempt frame
    refine ⟨(fun ho => (by cases ho)), fun _ hj result hres hterm o hat => ?_, fun hk => (by cases hk)⟩
    simp only [deadLettersAhead, hres, hj, hterm, Bool.not_true, Bool.false_or] at h
    cases hoff : Cursor.offsetOf record.cursor with
    | error e => simp [hoff] at h
    | ok offset =>
      rw [hat.offsetOf hoff] at hoff
      simpa [hoff] using h
  · exact fun row _ => ⟨(fun hg => (by cases hg)), fun hb => (by cases hb)⟩
  · exact fun hb => (by cases hb)
  · trivial

private theorem retriesAhead_suffices :
    @Suffices cfg fuel { monotone := true } fun c act => retriesAhead c act = true where
  start := by
    intro c j h
    simp only [retriesAhead, inSequence, Bool.and_true] at h
    exact ⟨h, fun _ => ⟨rfl, rfl⟩⟩
  task := by
    intro c i ch h
    simp only [retriesAhead, inSequence, Bool.and_eq_true] at h
    exact ⟨h.1, fun t ht o k hp => deadLettersAhead_admissible (calls_spec h.2 ht hp)⟩
  crash := fun _ => rfl

/-- While no retry dead-letters an event behind the position, positions only move forward, and
    the first attempts that follow are made of events beyond the positions reached. -/
theorem position_le_of_run {backend : Backend} {clock : Time}
    {authorizer : Option AllowlistAuthorizer} {a b : Run.Config cfg fuel}
    (ha : Config.Run (fun c act => retriesAhead c act = true)
      (initial cfg fuel backend clock authorizer) a)
    (hb : Config.Run (fun c act => retriesAhead c act = true) a b) :
    (∀ id topic, a.state.state.subs.position id topic ≤ b.state.state.subs.position id topic) ∧
    ∃ later, b.state.trace = a.state.trace ++ later ∧ ∀ e ∈ later, ∀ sub record frame,
      e.op = .send sub record 1 frame → ∀ o, record.LiesAt record.topic o →
        a.state.state.subs.position sub.subscriptionId record.topic < o := by
  have hfit : Regime.Fits { monotone := true } cfg := ⟨(fun h => (by cases h)), fun h => (by cases h)⟩
  have hno : ({ monotone := true } : Regime).bounded = true → backend = .live := fun h => (by cases h)
  refine ⟨(grows_of_run hfit retriesAhead_suffices hno ha hb).position rfl, ?_⟩
  obtain ⟨later, hlater, hfound⟩ := found_of_run hfit retriesAhead_suffices hno ha hb
  have hfresh := (inv_of_run hfit retriesAhead_suffices hno (ha.trans hb)).fresh rfl
  refine ⟨later, hlater, fun e he sub record frame hop o hat => ?_⟩
  obtain ⟨before, after, hsplit⟩ := List.append_of_mem he
  obtain ⟨-, hgrows, -⟩ := hfound before e after hsplit
  have hle := hgrows.position rfl sub.subscriptionId record.topic
  have hlt := hfresh e (by rw [hlater]; exact List.mem_append_right _ he) sub record frame hop o hat
  exact Int.lt_of_le_of_lt hle hlt

/-- A retry that is dead-lettered right after its first attempt. -/
theorem position_le_of_run_sample : ∃ a b : Run.Config Sample.queued 5,
    (sends b.state.trace "sub_0" "t" = [(0, 1), (0, 2)]) ∧
    (∀ id topic, a.state.state.subs.position id topic ≤ b.state.state.subs.position id topic) ∧
    ∃ later, b.state.trace = a.state.trace ++ later ∧ ∀ e ∈ later, ∀ sub record frame,
      e.op = .send sub record 1 frame → ∀ o, record.LiesAt record.topic o →
        a.state.state.subs.position sub.subscriptionId record.topic < o := by
  have hrun : ((initial Sample.queued 5 .live 0 none).runsWith retriesAhead
      (Sample.subscribed ++ Sample.published 2 11 Sample.failing)).any (fun a =>
      (a.runsWith retriesAhead
        (.env (.tick 2000000) :: Sample.call 4 (.runOnce 2000000 10 60) 7 Sample.refusing)).any
        fun b => sends b.state.trace "sub_0" "t" = [(0, 1), (0, 2)]) = true := by
    decide +kernel
  obtain ⟨a, ha, hp⟩ := Config.Run.of_any hrun
  obtain ⟨b, hb, hsends⟩ := Config.Run.of_any hp
  exact ⟨a, b, of_decide_eq_true hsends, position_le_of_run ha hb⟩

/-- The first attempt of an event fails, the next event is delivered, and then the retry is
    refused for good: the position moves back onto the dead-lettered event, and the next
    dispatch sends the delivered event once more. -/
theorem retry_moves_position_back : ∃ a b : Run.Config Sample.queued 5,
    Config.Run (fun c act => inSequence c act = true) (initial Sample.queued 5 .live 0 none) a ∧
    Config.Run (fun c act => inSequence c act = true) a b ∧
      b.state.state.subs.position "sub_0" "t" < a.state.state.subs.position "sub_0" "t" ∧
      sends b.state.trace "sub_0" "t" = [(0, 1), (1, 1), (0, 2), (1, 1)] := by
  have hrun : ((initial Sample.queued 5 .live 0 none).runsWith inSequence
      (Sample.subscribed ++ Sample.published 2 11 Sample.failing ++ Sample.published 4 13)).any
      (fun a => (a.state.state.subs.position "sub_0" "t" = 1) &&
        (a.runsWith inSequence (.env (.tick 2000000) :: Sample.call 6 (.runOnce 2000000 10 60) 7 Sample.refusing ++
          Sample.call 7 .dispatchPending 2 ++ List.replicate 5 (.task 8 {}))).any fun b =>
        (b.state.state.subs.position "sub_0" "t" = 0 ∧
          sends b.state.trace "sub_0" "t" = [(0, 1), (1, 1), (0, 2), (1, 1)] : Bool)) = true := by
    decide +kernel
  obtain ⟨a, ha, hp⟩ := Config.Run.of_any hrun
  simp only [Bool.and_eq_true, decide_eq_true_eq] at hp
  obtain ⟨b, hb, hq⟩ := Config.Run.of_any hp.2
  obtain ⟨hposition, hsends⟩ := of_decide_eq_true hq
  refine ⟨a, b, ha, hb, ?_, hsends⟩
  rw [hposition, hp.1]
  decide

end A2AEvents
