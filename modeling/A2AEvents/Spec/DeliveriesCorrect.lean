import A2AEvents.Spec.Evaluation
import A2AEvents.Spec.Runs

/-!
# Deliveries without a retry queue

Without a retry queue an event is attempted until its outcome is known, and only then the
dispatch position moves on. So no owed event is passed before its outcome is on record, also
when the process stops at any point; and the sends to a subscription are in log order.

## Key results

- `accounted_of_run`: every event that a position has passed is accounted for
- `inOrder_of_run`: the sends of every subscription and topic are in log order
-/

namespace A2AEvents

open Async Publisher

variable {cfg : PublisherConfig} {fuel : Nat}

/-- Calls other than explicit acks and retries. -/
def ordinary (w : World) (j : Job) : Bool := callable j w && !j.isRetry && j.acks?.isNone

theorem ordinary_spec {w : World} {j : Job} (h : ordinary w j = true) {R : Regime}
    (hgated : R.gated = false) : callable j w = true ∧ R.exclusive j = false := by
  simp only [ordinary, Bool.and_eq_true, Bool.not_eq_true'] at h
  refine ⟨h.1.1, ?_⟩
  cases j <;> simp_all [Job.isRetry, Job.acks?, Regime.exclusive]

/-! ## Crash-safe accounting -/

/-- Any interleaving of ordinary calls, with crashes anywhere. -/
def withoutAcks (c : Run.Config cfg fuel) : Action (sem cfg fuel).traced → Bool
  | .start j => ordinary c.state.state j
  | _ => true

private theorem withoutAcks_peaceful :
    @Peaceful cfg fuel { accounted := true } fun c act => withoutAcks c act = true where
  start := fun h => ordinary_spec h rfl
  task := by
    intro c i ch _ t _ _ o _ _
    unfold Admissible
    split
    · exact ⟨(fun ho => (by cases ho)), (fun hm => (by cases hm)), fun hk => (by cases hk)⟩
    · exact fun row _ => ⟨(fun hg => (by cases hg)), fun hb => (by cases hb)⟩
    · exact fun hb => (by cases hb)
    · trivial
  crash := fun _ => rfl

/-- Every event between the start of a subscription and its position was not owed to it, was
    out of retention when catch-up passed it, or has its outcome on record. -/
theorem accounted_of_run {backend : Backend} {clock : Time}
    {authorizer : Option AllowlistAuthorizer} {a : Run.Config cfg fuel}
    (hqueue : cfg.retryQueue = false) (hattempts : 1 ≤ cfg.maxAttempts)
    (ha : Config.Run (fun c act => withoutAcks c act = true)
      (initial cfg fuel backend clock authorizer) a) :
    ∀ p ∈ added a.state.trace, ∀ topic, ∀ r ∈ appended a.state.trace topic, ∀ o,
      r.LiesAt topic o → p.2.getD topic (-1) < o →
      (o : Int) ≤ a.state.state.subs.position p.1.subscriptionId topic →
        Snapshot.Accounted a.state p.1 topic r o := by
  have hfit : Regime.Fits { accounted := true } cfg :=
    ⟨(fun h => (by cases h)), fun _ => .inl ⟨hqueue, hattempts⟩⟩
  have hno : ({ accounted := true } : Regime).bounded = true → backend = .live := fun h => (by cases h)
  have ha' := (withoutAcks_peaceful.runs hfit hno ha (.refl a)).1
  have haccounts := (inv_of_run hfit withoutAcks_peaceful.suffices hno ha').accounts rfl
  intro p hp topic r hr o hat hstart hle
  exact (haccounts p.1.subscriptionId topic p hp rfl).2 r hr o hat hstart hle

/-- The process stops after a send and makes up for it after the restart. -/
theorem accounted_of_run_sample : ∃ a : Run.Config Sample.config 5,
    (sends a.state.trace "sub_0" "t" = [(0, 1), (0, 1)] ∧
      a.state.state.subs.position "sub_0" "t" = 0) ∧
    ∀ p ∈ added a.state.trace, ∀ topic, ∀ r ∈ appended a.state.trace topic, ∀ o,
      r.LiesAt topic o → p.2.getD topic (-1) < o →
      (o : Int) ≤ a.state.state.subs.position p.1.subscriptionId topic →
        Snapshot.Accounted a.state p.1 topic r o := by
  have hrun : ((initial Sample.config 5 .live 0 none).runsWith withoutAcks
      (Sample.subscribed ++ Sample.call 2 (.publish "t" "x" [] none) 3 ++
        List.replicate 5 (.task 3 {}) ++ [.crash] ++ Sample.call 4 .dispatchPending 2 ++
        List.replicate 10 (.task 5 {}))).any (fun a =>
      (sends a.state.trace "sub_0" "t" = [(0, 1), (0, 1)] ∧
        a.state.state.subs.position "sub_0" "t" = 0 : Bool)) = true := by
    decide +kernel
  obtain ⟨a, ha, hp⟩ := Config.Run.of_any hrun
  exact ⟨a, of_decide_eq_true hp, accounted_of_run rfl (by decide) ha⟩

/-! ## Log order -/

/-- The transport answers, and it does not fail so often that the delay after a failure
    overflows: from attempt 1025 on a failure is the last one. -/
def answers (cfg : PublisherConfig) (ch : Choice) (_ : Job) (o : Op) : Bool :=
  match o, ch.result with
  | .send _ _ attempt _, .ok result =>
    result.ack || !result.retry || (attempt : Int) = cfg.maxAttempts || attempt ≤ 1024
  | .send .., .error _ => false
  | _, _ => true

/-- The transport answers. -/
def returns (ch : Choice) (_ : Job) (o : Op) : Bool :=
  match o, ch.result with
  | .send .., .error _ => false
  | _, _ => true

/-- Any interleaving of ordinary calls in a process that does not stop. -/
def inOneProcess (test : Choice → Job → Op → Bool) (c : Run.Config cfg fuel) :
    Action (sem cfg fuel).traced → Bool
  | .start j => ordinary c.state.state j
  | .task i ch => calls c i (test ch)
  | .env _ => true
  | .crash => false

private theorem answers_admissible {j : Job} {o : Op} {ch : Choice} {s : Snapshot cfg fuel}
    (h : answers cfg ch j o = true) : Admissible { ordered := true } j o ch s := by
  unfold Admissible
  split
  · rename_i sub record attempt frame
    refine ⟨fun _ => ?_, (fun hm => (by cases hm)), fun hk => (by cases hk)⟩
    cases hres : ch.result with
    | error e => simp [answers, hres] at h
    | ok result =>
      refine ⟨result, rfl, fun hack hretry => ?_⟩
      simpa [answers, hres, hack, hretry] using h
  · exact fun row _ => ⟨(fun hg => (by cases hg)), fun hb => (by cases hb)⟩
  · exact fun hb => (by cases hb)
  · trivial

private theorem inOneProcess_peaceful :
    @Peaceful cfg fuel { ordered := true } fun c act => inOneProcess (answers cfg) c act = true where
  start := fun h => ordinary_spec h rfl
  task := fun h _ ht _ _ _ hp => answers_admissible (calls_spec h ht hp)
  crash := fun h => (by cases h)

/-- In one process the sends to every subscription are in log order. -/
theorem inOrder_of_run {backend : Backend} {clock : Time}
    {authorizer : Option AllowlistAuthorizer} {a : Run.Config cfg fuel}
    (hqueue : cfg.retryQueue = false)
    (ha : Config.Run (fun c act => inOneProcess (answers cfg) c act = true)
      (initial cfg fuel backend clock authorizer) a) :
    ∀ id topic, InOrder (sends a.state.trace id topic) := by
  have hfit : Regime.Fits { ordered := true } cfg := ⟨fun _ => .inl hqueue, fun h => (by cases h)⟩
  have hno : ({ ordered := true } : Regime).bounded = true → backend = .live := fun h => (by cases h)
  have ha' := (inOneProcess_peaceful.runs hfit hno ha (.refl a)).1
  exact ((inv_of_run hfit inOneProcess_peaceful.suffices hno ha').ordered rfl).inOrder

/-! ### Too many failures

From attempt 1025 on the delay cannot be computed: the exception ends the dispatch before the
position moves, and the next dispatch starts with attempt one again. -/

section Overflow

variable {i : Nat} {s : Snapshot cfg fuel}

/-- The transport always fails and may always be asked again. -/
private def failures (_ : Nat) : Choice := Sample.failing

/-- Attempts and uuids apart, nothing has changed. -/
private structure Still (w w' : World) : Prop where
  eq : ∃ uuids attempts, w' =
    { w with uuids := uuids, subs := { w.subs with attempts := attempts } }

private theorem Still.trans {w w' w'' : World} (h : Still w w') (h' : Still w' w'') :
    Still w w'' := by
  obtain ⟨n, l, rfl⟩ := h
  obtain ⟨n', l', rfl⟩ := h'
  exact ⟨n', l', rfl⟩

/-- One failed attempt that is written down. -/
private theorem attempt_fails (i : Nat) (h : Handle) {record : EventRecord} {topic : Topic}
    {n o : Nat}
    (hcached : s.state.topics.get? record.topic = some topic)
    (hdata : ∃ bytes, canonicalize (.obj record.data) = .ok bytes)
    (hoff : Cursor.offsetOf record.cursor = .ok o) (hn : n ≤ 1025) :
    ∃ s₁ s₂, Evals failures i (attemptSend cfg h record n) s (.ok { ack := false }) s₁ ∧
      Evals failures i (recordAttempt h record n .retry { ack := false }) s₁ (.ok ()) s₂ ∧
      Still s.state s₂.state ∧ Sent h record o n s s₂ := by
  have hlt : n < 10 ^ Cursor.maxStrDigits := by
    have : Cursor.maxStrDigits < 10 ^ Cursor.maxStrDigits := Nat.lt_pow_self (by decide)
    have : Cursor.maxStrDigits = 4300 := rfl
    omega
  obtain ⟨s₁, k, hsend, hs₁, -, hsent⟩ := attemptSend_eval failures i h hcached hdata hoff hlt rfl
  obtain ⟨s₂, k', a, hrec, hs₂, -, -, -, -, -, -, hquiet⟩ :=
    recordAttempt_eval failures i s₁ h record n .retry { ack := false }
  refine ⟨s₁, s₂, hsend, hrec, ?_, hsent.quiet hquiet⟩
  rw [hs₂, hs₁]
  exact ⟨k', _, rfl⟩

/-- The attempts from number `n` on end with the exception. -/
private theorem deliverInline_overflows {h : Handle} {record : EventRecord} {topic : Topic} {o : Nat}
    (hmax : 1025 < cfg.maxAttempts)
    (hdata : ∃ bytes, canonicalize (.obj record.data) = .ok bytes)
    (hoff : Cursor.offsetOf record.cursor = .ok o) (k : Nat) :
    ∀ {n rest : Nat} {s : Snapshot cfg fuel}, n + k = 1025 → k ≤ rest →
      s.state.topics.get? record.topic = some topic →
      ∃ s', Evals failures i (deliverInline cfg h record n (rest + 1)) s
          (.error (.other "OverflowError")) s' ∧ Still s.state s'.state ∧
        sends s'.trace h.sub.subscriptionId record.topic =
          sends s.trace h.sub.subscriptionId record.topic ++
            (List.range' n (k + 1)).map fun m => (o, m) := by
  -- the first branch that is left: neither acked, nor refused, nor the last attempt
  have hround : ∀ {n rest : Nat} {s s₁ s₂ s' : Snapshot cfg fuel}, n ≤ 1025 →
      Evals failures i (attemptSend cfg h record n) s (.ok { ack := false }) s₁ →
      Evals failures i (recordAttempt h record n .retry { ack := false }) s₁ (.ok ()) s₂ →
      Evals failures i (do
        let delay ← orRaise (backoffDelay cfg n)
        perform (.sleep delay)
        deliverInline cfg h record (n + 1) rest) s₂ (.error (.other "OverflowError")) s' →
      Evals failures i (deliverInline cfg h record n (rest + 1)) s
        (.error (.other "OverflowError")) s' := by
    intro n rest s s₁ s₂ s' hn hsend hrec hnext
    unfold deliverInline
    refine hsend.bind ?_
    have hne : (n : Int) ≠ cfg.maxAttempts := by omega
    simp only [Bool.false_eq_true, if_false, Bool.not_true, Bool.false_or, hne, decide_false]
    exact hrec.bind hnext
  induction k with
  | zero =>
    intro n rest s hn _ hcached
    obtain ⟨s₁, s₂, hsend, hrec, hstill, hsent⟩ :=
      attempt_fails i h hcached hdata hoff (by omega : n ≤ 1025)
    refine ⟨s₂, hround (by omega) hsend hrec ?_, hstill, ?_⟩
    · have hover : backoffDelay cfg n = .error (.other "OverflowError") := by
        rw [backoffDelay, if_neg (by omega)]
      rw [hover]
      exact .raise _ _
    · simpa using hsent.sends h.sub.subscriptionId record.topic
  | succ k ih =>
    intro n rest s hn hrest hcached
    obtain ⟨s₁, s₂, hsend, hrec, hstill, hsent⟩ :=
      attempt_fails i h hcached hdata hoff (by omega : n ≤ 1025)
    obtain ⟨rest, rfl⟩ : ∃ m, rest = m + 1 := ⟨rest - 1, by omega⟩
    have hdelay : ∃ delay, backoffDelay cfg n = .ok delay :=
      ⟨_, by rw [backoffDelay, if_pos (by omega)]⟩
    obtain ⟨delay, hdelay⟩ := hdelay
    have hcached₂ : s₂.state.topics.get? record.topic = some topic := by
      obtain ⟨m, l, heq⟩ := hstill.eq
      rw [heq]
      exact hcached
    have hslept : (s₂.next i (.sleep delay) () s₂.state).state.topics.get? record.topic =
      some topic := hcached₂
    obtain ⟨s', hrun, hstill', hsends⟩ :=
      ih (by omega : n + 1 + k = 1025) (by omega : k ≤ rest) hslept
    refine ⟨s', hround (by omega) hsend hrec (.lift hdelay (.call rfl hrun)),
      hstill.trans hstill', ?_⟩
    rw [hsends, Snapshot.next_trace, sends_concat, hsent.sends]
    simp [Entry.sent?, List.range'_succ, List.append_assoc]

/-- A subscription that is owed its first event and not being served. -/
private structure Overdue (cfg : PublisherConfig) (row : Subscription) (record : EventRecord)
    (topic : Topic) (w : World) : Prop where
  backend : w.subs.backend = .live
  rows : w.subs.rows.entries = [(row.subscriptionId, row)]
  active : row.status = .active
  lease : w.clock < row.leaseUntil
  topics : row.topics = [record.topic]
  selector : row.selector = none
  authorizer : w.authorizer = none
  lock : w.locks.get? row.subscriptionId = none
  cached : w.topics.get? record.topic = some topic
  position : w.subs.position row.subscriptionId record.topic = -1
  page : ∃ next, w.store.read w.clock record.topic none none cfg.pageSize = .ok ([record], next)
  offset : Cursor.offsetOf record.cursor = .ok 0
  data : ∃ bytes, canonicalize (.obj record.data) = .ok bytes

/-- The dispatch of such a subscription makes 1025 attempts and gives up. -/
private theorem dispatch_overflows (rounds : Nat) {row : Subscription} {record : EventRecord}
    {topic : Topic} (hqueue : cfg.retryQueue = false) (hmax : 1025 < cfg.maxAttempts)
    (h : Overdue cfg row record topic s.state) :
    ∃ s' e, Evals failures i (dispatchSubscription cfg (rounds + 1) ⟨row, row⟩ none) s (.error e) s' ∧
      Overdue cfg row record topic s'.state ∧
      sends s'.trace row.subscriptionId record.topic = sends s.trace row.subscriptionId record.topic ++
        (List.range' 1 1025).map fun m => (0, m) := by
  have hget : s.state.subs.rows.get? row.subscriptionId = some row := by
    simp [Dict.get?, Dict.get?.go, h.rows]
  have hderef : s.state.subs.deref ⟨row, row⟩ = ⟨row, row⟩ := by
    simp [SubscriptionStore.deref, h.backend, hget]
  obtain ⟨s₁, hactive, hs₁, hquiet₁⟩ := isActive_eval failures i hderef h.active h.lease
  obtain ⟨next, hpage⟩ := h.page
  obtain ⟨rest, hrest⟩ : ∃ m, cfg.maxAttempts.toNat = m + 1 := ⟨cfg.maxAttempts.toNat - 1, by omega⟩
  -- the calls up to the first send leave everything but the lock as it is
  have hscan : ∀ s₂ : Snapshot cfg fuel, s₂.state.topics = s.state.topics →
      ∃ s₃, Evals failures i (scanPage cfg topic (-1) 0 ⟨row, row⟩ [record]) s₂
          (.error (.other "OverflowError")) s₃ ∧ Still s₂.state s₃.state ∧
        sends s₃.trace row.subscriptionId record.topic =
          sends s₂.trace row.subscriptionId record.topic ++
            (List.range' 1 1025).map fun m => (0, m) := by
    intro s₂ htopics
    obtain ⟨s₃, hrun, hstill, hsends⟩ := deliverInline_overflows (h := ⟨row, row⟩) (i := i) hmax
      h.data h.offset 1024 (by omega : 1 + 1024 = 1025) (by omega : 1024 ≤ rest)
      (by rw [htopics]; exact h.cached : s₂.state.topics.get? record.topic = some topic)
    refine ⟨s₃, ?_, hstill, hsends⟩
    unfold scanPage
    refine .lift h.offset ?_
    rw [if_neg (by decide)]
    refine .lift (by rw [h.selector]; rfl) ?_
    simp only [if_true, deliverOne, hqueue, Bool.false_eq_true, if_false, hrest]
    exact hrun.bind_error _
  have hcatch : ∀ s₂ : Snapshot cfg fuel,
      s₂.state = { s.state with locks := s.state.locks.set row.subscriptionId i } →
      ∃ s₃, Evals failures i (catchUpAll cfg (rounds + 1) 0 ⟨row, row⟩ [record.topic]) s₂
          (.error (.other "OverflowError")) s₃ ∧ Still s₂.state s₃.state ∧
        sends s₃.trace row.subscriptionId record.topic =
          sends s₂.trace row.subscriptionId record.topic ++
            (List.range' 1 1025).map fun m => (0, m) := by
    intro s₂ hs₂
    have hcached : s₂.state.topics.get? record.topic = some topic := by rw [hs₂]; exact h.cached
    obtain ⟨d, hd, hposition⟩ : ∃ d, s₂.state.subs.highWater row.subscriptionId = d ∧
        d.getD record.topic (-1) = -1 := ⟨_, rfl, by rw [hs₂]; exact h.position⟩
    let s₄ := s₂.next i (.cachedTopic record.topic) (some topic) s₂.state
    let s₅ := s₄.next i (.highWater row.subscriptionId) d s₂.state
    let s₆ := s₅.next i (.read record.topic none none cfg.pageSize) (.ok ([record], next)) s₂.state
    obtain ⟨s₃, hrun, hstill, hsends⟩ := hscan s₆ (by simp [s₆, hs₂])
    have hquiet : Quiet s₂ s₆ := ((Quiet.next (.refl s₂) rfl).next rfl).next rfl
    have hex₅ : World.exec i (.highWater row.subscriptionId) (failures (sendCount s₄.trace)) s₄.state =
        some (d, s₂.state) := by
      simp [World.exec, s₄, hd]
    have hex₆ : World.exec i (.read record.topic none none cfg.pageSize)
        (failures (sendCount s₅.trace)) s₅.state = some (.ok ([record], next), s₂.state) := by
      simp [World.exec, s₅, hs₂, hpage]
    have hread : Evals failures i (readPage cfg record.topic none) s₅ (.ok [record]) s₆ :=
      .call hex₆ (.pure _ _)
    refine ⟨s₃, ?_, hstill, by rw [hsends, hquiet.sends]⟩
    refine Eval.bind_error _ (getTopic_eval hcached (.call hex₅ ?_))
    rw [hposition]
    refine .lift (by rfl : cursorAt record.topic (-1) = .ok none) (hread.bind ?_)
    exact hrun.bind_error _
  let held : World := { s.state with locks := s.state.locks.set row.subscriptionId i }
  let s₂ := (s₁.next i (.authorizeDelivery ⟨row, row⟩) true s.state).next i
    (.acquire row.subscriptionId) () held
  obtain ⟨s₃, hrun, hstill, hsends⟩ := hcatch s₂ rfl
  have hexAuth : World.exec i (.authorizeDelivery ⟨row, row⟩) (failures (sendCount s₁.trace))
      s₁.state = some (true, s.state) := by
    simp [World.exec, hs₁, World.deliveryAuthorized, h.authorizer]
  have hexLock : World.exec i (.acquire row.subscriptionId)
      (failures (sendCount (s₁.next i (.authorizeDelivery ⟨row, row⟩) true s.state).trace))
      (s₁.next i (.authorizeDelivery ⟨row, row⟩) true s.state).state = some ((), held) := by
    simp [World.exec, h.lock, held]
  have hquiet : Quiet s s₂ := (hquiet₁.next rfl).next rfl
  refine ⟨s₃.next i (.release row.subscriptionId) ()
    { s₃.state with locks := s₃.state.locks.erase row.subscriptionId }, .other "OverflowError", ?_, ?_, ?_⟩
  · refine hactive.bind ?_
    refine Evals.call hexAuth (Evals.call hexLock ?_)
    rw [Option.getD_none, h.topics]
    exact (Eval.attempt_iff.mpr ⟨_, rfl, hrun⟩).bind (Evals.call rfl (.raise _ _))
  · obtain ⟨m, l, heq⟩ := hstill.eq
    have hfree : (s₃.state.locks.erase row.subscriptionId).get? row.subscriptionId = none := by
      simp [Dict.get?_erase]
    simp only [Snapshot.next_state, heq] at hfree ⊢
    exact ⟨h.backend, h.rows, h.active, h.lease, h.topics, h.selector, h.authorizer, hfree, h.cached,
      h.position, h.page, h.offset, h.data⟩
  · rw [Snapshot.next_trace, sends_concat, hsends, hquiet.sends]
    simp [Entry.sent?]

/-- A pass of the dispatch worker over such a subscription. -/
private theorem pass_overflows {row : Subscription} {record : EventRecord} {topic : Topic}
    {c : Run.Config cfg fuel} (hqueue : cfg.retryQueue = false) (hmax : 1025 < cfg.maxAttempts)
    (hfuel : 0 < fuel) (h : Overdue cfg row record topic c.state.state) :
    ∃ c', Config.Run (fun c act => inOneProcess returns c act = true) c c' ∧
      Overdue cfg row record topic c'.state.state ∧
      sends c'.state.trace row.subscriptionId record.topic =
        sends c.state.trace row.subscriptionId record.topic ++
          (List.range' 1 1025).map fun m => (0, m) := by
  obtain ⟨rounds, rfl⟩ : ∃ m, fuel = m + 1 := ⟨fuel - 1, by omega⟩
  have hreturns : ∀ (c : Run.Config cfg (rounds + 1)) i,
      inOneProcess returns c (.task i Sample.failing) = true := by
    intro c i
    simp only [inOneProcess, calls]
    split
    · rename_i o k _
      cases o <;> rfl
    · rfl
  -- the pass lists the subscription and forks a dispatch of it
  let k : List Handle → M Val := fun hs =>
    (gatherDispatch (hs.filter fun h => !h.sub.topics.isEmpty) none >>= fun results =>
      pure (results.map dispatched).sum) >>= fun n => pure (Val.count n)
  let job : Job := .dispatchSubscription ⟨row, row⟩ none
  let after : Except PyError (List Val) → M Val := fun r =>
    (orRaise r >>= fun results => pure (results.map dispatched).sum) >>= fun n => pure (Val.count n)
  have hlist : c.state.state.subs.listAll = [⟨row, row⟩] := by
    simp [SubscriptionStore.listAll, h.backend, Dict.values, h.rows]
  have hk : k [⟨row, row⟩] = .fork [job] fun ids => .join ids after := by
    simp [k, gatherDispatch, h.topics, job, after]
  let n := c.tasks.length
  let c₁ : Run.Config cfg (rounds + 1) :=
    { c with tasks := c.tasks ++ [⟨.dispatchPending, .op .listAll k⟩] }
  let c₂ : Run.Config cfg (rounds + 1) :=
    { c with
      state := Snapshot.next c.state n .listAll [⟨row, row⟩] c.state.state
      tasks := c.tasks ++ [⟨.dispatchPending, k [⟨row, row⟩]⟩] }
  let c₃ : Run.Config cfg (rounds + 1) :=
    { c₂ with
      tasks := c.tasks ++ [⟨.dispatchPending, .join [n + 1] after⟩, ⟨job, code cfg (rounds + 1) job⟩] }
  have h₁ : c.step (.start .dispatchPending) = some c₁ := rfl
  have h₂ : c₁.step (.task n Sample.failing) = some c₂ := by
    have hget : c₁.tasks[n]? = some ⟨.dispatchPending, .op .listAll k⟩ := by simp [c₁, n]
    simp only [Config.step, Config.stepTask, hget]
    simp [c₁, c₂, World.exec, hlist, Config.resume, hk, Sem.settle, Snapshot.next, n]
  have h₃ : c₂.step (.task n Sample.failing) = some c₃ := by
    have hget : c₂.tasks[n]? = some ⟨.dispatchPending, .fork [job] fun ids => .join ids after⟩ := by
      simp [c₂, n, hk]
    simp only [Config.step, Config.stepTask, hget]
    simp [c₂, c₃, Config.resume, Sem.settle, Sem.spawn, n]
  -- and the dispatch fails
  have hget : c₃.tasks[n + 1]? = some ⟨job, code cfg (rounds + 1) job⟩ := by simp [c₃, n]
  obtain ⟨s', e, hrun, hoverdue, hsends⟩ := dispatch_overflows (i := n + 1) (s := c₃.state)
    rounds hqueue hmax h
  obtain ⟨c', hrun', hstate, -⟩ := Eval.run (hrun.bind_error fun m => pure (Val.count m)) hget
  refine ⟨c', ?_, by rw [hstate]; exact hoverdue, ?_⟩
  · refine (((Config.Run.refl c).step _ ?_ h₁).step _ (hreturns _ _) h₂).step _ (hreturns _ _) h₃ |>.trans
      (hrun'.mono ?_)
    · rfl
    · rintro cfg act rfl
      exact hreturns _ _
  · rw [hstate, hsends]
    simp [c₃, c₂, Entry.sent?]

/-- Whether the one subscription of a publisher is owed the one event of its topic. -/
private def overdue (cfg : PublisherConfig) (name : String) (w : World) : Bool :=
  match w.subs.rows.entries, w.topics.get? name,
    w.store.read w.clock name none none cfg.pageSize with
  | [(id, row)], some _, .ok ([record], _) =>
    decide (w.subs.backend = .live ∧ id = row.subscriptionId ∧ row.status = .active ∧
      w.clock < row.leaseUntil ∧ row.topics = [name] ∧ row.selector.isNone ∧ w.authorizer.isNone ∧
      w.locks.get? id = none ∧ w.subs.position id name = -1 ∧ record.topic = name) &&
    match Cursor.offsetOf record.cursor, canonicalize (.obj record.data) with
    | .ok 0, .ok _ => true
    | _, _ => false
  | _, _, _ => false

private theorem overdue_spec {name : String} {w : World} (h : overdue cfg name w = true) :
    ∃ row record topic, Overdue cfg row record topic w := by
  unfold overdue at h
  split at h
  · rename_i id row topic record next hrows hcached hpage
    simp only [Bool.and_eq_true, decide_eq_true_eq, Option.isNone_iff_eq_none] at h
    obtain ⟨⟨hbackend, rfl, hactive, hlease, htopics, hselector, hauth, hlock, hposition, rfl⟩, hrecord⟩ := h
    split at hrecord
    · rename_i bytes hoff hdata
      exact ⟨row, record, topic, hbackend, hrows, hactive, hlease, htopics, hselector, hauth, hlock,
        hcached, hposition, ⟨next, hpage⟩, hoff, bytes, hdata⟩
    · cases hrecord
  · cases h

end Overflow

/-- With more than 1025 attempts allowed, an event that fails 1025 times is sent again from
    attempt one on. -/
theorem overflow_restarts_attempts : ∃ c : Run.Config Sample.patient 5, ∃ id topic,
    Config.Run (fun c act => inOneProcess returns c act = true)
      (initial Sample.patient 5 .live 0 none) c ∧ ¬ InOrder (sends c.state.trace id topic) := by
  have hrun : ((initial Sample.patient 5 .live 0 none).runsWith (inOneProcess returns)
      (Sample.call 0 (.declareTopic Sample.topic) 1 ++ Sample.call 1 (.subscribe Sample.subscription) 4 ++
        Sample.call 2 (.publish "t" "x" [] none) 1)).any
      (fun c => overdue Sample.patient "t" c.state.state) = true := by
    decide +kernel
  obtain ⟨c₀, h₀, hoverdue⟩ := Config.Run.of_any hrun
  obtain ⟨row, record, topic, hoverdue⟩ := overdue_spec hoverdue
  obtain ⟨c₁, h₁, hoverdue₁, hsends₁⟩ := pass_overflows rfl (by decide) (by decide) hoverdue
  obtain ⟨c₂, h₂, -, hsends₂⟩ := pass_overflows rfl (by decide) (by decide) hoverdue₁
  refine ⟨c₂, row.subscriptionId, record.topic, (h₀.trans h₁).trans h₂, fun hord => ?_⟩
  -- attempt 1025 is followed by attempt one of the same event
  have hchain := hord.2
  rw [hsends₂, hsends₁, List.isChain_append] at hchain
  have hlast : List.range' 1 1025 = List.range' 1 1024 ++ [1025] := List.range'_concat
  have hfirst : List.range' 1 1025 = 1 :: List.range' 2 1024 := List.range'_succ
  have hbad := hchain.2.2 (0, 1025)
    (by rw [hlast, List.map_append, ← List.append_assoc]; exact List.getLast?_concat)
    (0, 1) (by rw [hfirst]; rfl)
  exact absurd hbad (by decide)

/-- Two failures and a success. -/
theorem inOrder_of_run_sample : ∃ a : Run.Config Sample.config 5,
    sends a.state.trace "sub_0" "t" = [(0, 1), (0, 2), (0, 3)] ∧
      ∀ id topic, InOrder (sends a.state.trace id topic) := by
  have hrun : ((initial Sample.config 5 .live 0 none).runsWith (inOneProcess (answers Sample.config))
      (Sample.subscribed ++ Sample.call 2 (.publish "t" "x" [] none) 3 ++
        List.replicate 10 (.task 3 Sample.failing) ++ List.replicate 2 (.task 3 {}))).any (fun a =>
      sends a.state.trace "sub_0" "t" = [(0, 1), (0, 2), (0, 3)]) = true := by
    decide +kernel
  obtain ⟨a, ha, hp⟩ := Config.Run.of_any hrun
  exact ⟨a, of_decide_eq_true hp, inOrder_of_run rfl ha⟩

end A2AEvents
