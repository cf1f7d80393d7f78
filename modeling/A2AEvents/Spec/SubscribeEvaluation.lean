import A2AEvents.Spec.CatchUpCorrect
import A2AEvents.Spec.ListingEvaluation

/-!
# Subscribing alone

What a subscribe that nothing interrupts checks, in which order, and where it lets a new
subscription start. The checks and the start offsets are functions of the world that the call
finds; up to the moment the subscription is added, the call changes nothing but leases that
have run out and the topic cache.

## Key results

- `verdict`, `World.startsOf`, `admission`: the checks and the start offsets
- `checkSubscribe_eval`, `startOffsets_eval`: the code computes them
- `addSubscription_eval`: a subscribe up to the new subscription
-/

namespace A2AEvents

open Async Publisher

variable {cfg : PublisherConfig} {fuel : Nat}

/-! ## Checks -/

/-- The declaration of a topic, from the cache or from the store. -/
def World.topicModel (w : World) (name : String) : Except PyError Topic :=
  match w.topics.get? name with
  | some topic => .ok topic
  | none => w.store.getTopic name

/-- The declarations of the requested topics. -/
def World.topicModels (w : World) : List String → Except PyError (List Topic)
  | [] => .ok []
  | name :: rest => do
    let topic ← w.topicModel name
    let topics ← w.topicModels rest
    pure (topic :: topics)

/-- The number of subscriptions of a subscriber that are not deleted. -/
def World.subscribed (w : World) (subscriberCardUrl : String) : Nat :=
  (w.listed.filter fun h => h.sub.subscriberCardUrl = subscriberCardUrl).length

/-- Whether a subscriber may have one more subscription. -/
def checkQuota (cfg : PublisherConfig) (w : World) (subscriberCardUrl : String) : Except PyError Unit :=
  match cfg.maxSubscriptionsPerSubscriber with
  | none => .ok ()
  | some quota =>
    if w.subscribed subscriberCardUrl ≥ quota then
      raiseA2A .rateLimited
        ("Maximum subscriptions per subscriber reached (" ++ toString quota ++ ").")
        [("maxSubscriptionsPerSubscriber", .int quota)]
    else .ok ()

/-- Whether the caller may subscribe to the topics. -/
def checkCaller (w : World) (caller : Option AuthIdentity) (topics : List String) : Except PyError Unit :=
  match w.authorizer with
  | none => .ok ()
  | some auth => auth.authorizeSubscribe caller topics

/-- The checks of `subscribe` between the lease and the start offsets. -/
def verdict (cfg : PublisherConfig) (limiter : Except PyError Unit) (w : World) (req : SubscribeRequest)
    (topics : List String) : Except PyError (ResolvedDelivery × List Topic) := do
  (if cfg.rateLimiter then limiter else .ok ())
  (match cfg.selectorLimits with
    | some limits => limits.check req.selector
    | none => .ok ())
  checkCaller w req.caller topics
  checkQuota cfg w req.subscriberCardUrl
  let card ← resolveCard cfg req.subscriberCardUrl
  checkDeliveryMode req.mode card
  let resolved ← resolveDeliveryTarget cfg req.mode card
  let topicModels ← w.topicModels topics
  validateTopics req topicModels
  pure (resolved, topicModels)

/-! ## Start offsets -/

/-- The offset of the head of a topic. -/
def EventStore.headOf (store : EventStore) (topic : String) : Except PyError Int :=
  if store.count topic = 0 then .ok (-1)
  else do
    let latest ← store.latestCursor topic
    let offset ← Cursor.offsetOf latest
    pure offset

/-- Where a subscription starts in a topic. -/
def World.startOf (w : World) (topic fromCursor : String) : Except PyError Int :=
  if fromCursor = Cursor.earliest then .ok (-1)
  else if fromCursor = Cursor.latest then w.store.headOf topic
  else do
    let cursorTopic ← Cursor.topicOf fromCursor
    if cursorTopic = topic then do
      let _ ← w.store.read w.clock topic (some fromCursor) (some fromCursor) 1
      let offset ← Cursor.offsetOf fromCursor
      pure offset
    else w.store.headOf topic

/-- Where a subscription starts in its topics. -/
def World.startsOf (w : World) (fromCursor : String) (acc : Dict String Int) :
    List Topic → Except PyError (Dict String Int)
  | [] => .ok acc
  | topic :: rest => do
    let offset ← w.startOf topic.name fromCursor
    w.startsOf fromCursor (acc.set topic.name offset) rest

/-- The requested topics, without repetitions. -/
def SubscribeRequest.topicNames (req : SubscribeRequest) : List String :=
  (Dict.ofList (req.topics.map fun t => (t, ()))).keys

/-- What a subscribe resolves before it adds the subscription. -/
def admission (cfg : PublisherConfig) (limiter : Except PyError Unit) (w : World) (req : SubscribeRequest) :
    Except PyError (ResolvedDelivery × List Topic × Dict String Int) := do
  checkLease cfg req.leaseSeconds
  let (resolved, topicModels) ← verdict cfg limiter w req req.topicNames
  let offsets ← w.startsOf req.fromCursor ∅ topicModels
  pure (resolved, topicModels, offsets)

/-- The subscription that a subscribe adds. -/
def SubscribeRequest.subscription (req : SubscribeRequest) (w : World) (resolved : ResolvedDelivery) : Subscription :=
  { subscriptionId := "sub_" ++ uuidHex w.uuids
    status := .active
    subscriberCardUrl := req.subscriberCardUrl
    topics := req.topicNames
    selector := req.selector
    delivery := resolved
    createdAt := w.clock
    leaseUntil := w.clock + seconds req.leaseSeconds
    cursors := ∅ }

/-! ## What the checks leave behind -/

/-- Leases have been looked at and topics have been fetched. -/
structure Prepared (w w' : World) : Prop where
  clock : w'.clock = w.clock
  uuids : w'.uuids = w.uuids
  store : w'.store = w.store
  queue : w'.queue = w.queue
  locks : w'.locks = w.locks
  authorizer : w'.authorizer = w.authorizer
  backend : w'.subs.backend = w.subs.backend
  positions : w'.subs.positions = w.subs.positions
  rows : ∀ id, w'.subs.rows.get? id = none ↔ w.subs.rows.get? id = none
  kept : ∀ n t, w.topics.get? n = some t → w'.topics.get? n = some t
  found : ∀ n t, w'.topics.get? n = some t → w.topicModel n = .ok t

theorem Prepared.refl (w : World) : Prepared w w :=
  ⟨rfl, rfl, rfl, rfl, rfl, rfl, rfl, rfl, fun _ => Iff.rfl, fun _ _ h => h, fun n t h => by
    rw [World.topicModel, h]⟩

/-- Topics are what they were. -/
theorem Prepared.topicModel {w w' : World} (h : Prepared w w') (name : String) :
    w'.topicModel name = w.topicModel name := by
  cases hcached : w'.topics.get? name with
  | some t =>
    rw [h.found name t hcached, World.topicModel, hcached]
  | none =>
    cases hold : w.topics.get? name with
    | some t =>
      rw [h.kept name t hold] at hcached
      cases hcached
    | none => simp only [World.topicModel, hcached, hold, h.store]

theorem Prepared.trans {w w' w'' : World} (h : Prepared w w') (h' : Prepared w' w'') : Prepared w w'' where
  clock := h'.clock.trans h.clock
  uuids := h'.uuids.trans h.uuids
  store := h'.store.trans h.store
  queue := h'.queue.trans h.queue
  locks := h'.locks.trans h.locks
  authorizer := h'.authorizer.trans h.authorizer
  backend := h'.backend.trans h.backend
  positions := h'.positions.trans h.positions
  rows := fun id => (h'.rows id).trans (h.rows id)
  kept := fun n t ht => h'.kept n t (h.kept n t ht)
  found := fun n t ht => (h.topicModel n).symm.trans (h'.found n t ht)

theorem Prepared.topicModels {w w' : World} (h : Prepared w w') (names : List String) :
    w'.topicModels names = w.topicModels names := by
  induction names with
  | nil => rfl
  | cons name rest ih => rw [World.topicModels, World.topicModels, h.topicModel, ih]

/-- Start offsets depend on the event store and the clock only. -/
theorem World.startOf_congr {w w' : World} (hstore : w'.store = w.store) (hclock : w'.clock = w.clock)
    (topic fromCursor : String) : w'.startOf topic fromCursor = w.startOf topic fromCursor := by
  rw [World.startOf, World.startOf, hstore, hclock]

theorem World.startsOf_congr {w w' : World} (hstore : w'.store = w.store) (hclock : w'.clock = w.clock)
    (fromCursor : String) (models : List Topic) :
    ∀ acc, w'.startsOf fromCursor acc models = w.startsOf fromCursor acc models := by
  induction models with
  | nil => exact fun _ => rfl
  | cons topic rest ih =>
    intro acc
    rw [World.startsOf, World.startsOf, World.startOf_congr hstore hclock]
    congr 1
    funext offset
    exact ih _

/-! ## Computations -/

section

variable {α β : Type} {reply : Nat → Choice} {i : Nat}

/-- From every snapshot that satisfies `P` the program evaluates to `x`, and leaves `Q` behind. -/
def Computes (reply : Nat → Choice) (i : Nat) (P Q : Snapshot cfg fuel → Prop) (p : M α) (x : Except PyError α) :
    Prop :=
  ∀ s, P s → ∃ s', Evals reply i p s x s' ∧ Q s'

variable {P Q R : Snapshot cfg fuel → Prop}

/-- Exceptions end a computation as they end the program. -/
theorem Computes.bind {p : M α} {x : Except PyError α} {f : α → M β} {g : α → Except PyError β}
    (hp : Computes reply i P Q p x) (hf : ∀ a, x = .ok a → Computes reply i Q R (f a) (g a))
    (herror : ∀ s, Q s → R s) : Computes reply i P R (p >>= f) (x >>= g) := by
  intro s hs
  obtain ⟨s₁, hrun, hs₁⟩ := hp s hs
  cases x with
  | error e => exact ⟨s₁, Eval.bind_error f hrun, herror s₁ hs₁⟩
  | ok a =>
    obtain ⟨s₂, hrest, hs₂⟩ := hf a rfl s₁ hs₁
    exact ⟨s₂, hrun.bind hrest, hs₂⟩

theorem Computes.pure (a : α) : Computes reply i P P (pure a) (.ok a) :=
  fun s hs => ⟨s, Eval.pure_iff.mpr ⟨rfl, rfl⟩, hs⟩

theorem Computes.lift (x : Except PyError α) : Computes reply i P P (orRaise x) x :=
  fun s hs => ⟨s, Eval.lift_iff.mpr ⟨rfl, rfl⟩, hs⟩

theorem Computes.weaken {p : M α} {x : Except PyError α} (hp : Computes reply i P Q p x) (hQ : ∀ s, Q s → R s) :
    Computes reply i P R p x := by
  intro s hs
  obtain ⟨s', hrun, hs'⟩ := hp s hs
  exact ⟨s', hrun, hQ s' hs'⟩

/-- Nothing has happened yet. -/
def Untouched (s₀ s : Snapshot cfg fuel) : Prop := Quiet s₀ s ∧ s.state = s₀.state

/-- Nothing has happened but the checks. -/
def Checked (s₀ s : Snapshot cfg fuel) : Prop := Quiet s₀ s ∧ Prepared s₀.state s.state

theorem Untouched.checked {s₀ s : Snapshot cfg fuel} (h : Untouched s₀ s) : Checked s₀ s :=
  ⟨h.1, by rw [h.2]; exact .refl _⟩

theorem Checked.trans {s₀ s₁ s₂ : Snapshot cfg fuel} (h : Checked s₀ s₁) (h' : Checked s₁ s₂) : Checked s₀ s₂ :=
  ⟨h.1.trans h'.1, h.2.trans h'.2⟩

/-! ## The checks -/

variable {s₀ : Snapshot cfg fuel}

/-- A topic is fetched. -/
theorem getTopic_computes (name : String) :
    Computes reply i (Checked s₀) (Checked s₀) (getTopic name) (s₀.state.topicModel name) := by
  intro s hs
  rw [← hs.2.topicModel name]
  cases hcached : s.state.topics.get? name with
  | some topic =>
    have hex : World.exec i (.cachedTopic name) (reply (sendCount s.trace)) s.state =
        some (some topic, s.state) := by
      simp [World.exec, hcached]
    refine ⟨s.next i (.cachedTopic name) (some topic) s.state, ?_, hs.1.next rfl, hs.2⟩
    rw [World.topicModel, hcached]
    exact Evals.call hex (.pure _ _)
  | none =>
    have hex : World.exec i (.cachedTopic name) (reply (sendCount s.trace)) s.state = some (none, s.state) := by
      simp [World.exec, hcached]
    have hmodel : s.state.topicModel name = s.state.store.getTopic name := by rw [World.topicModel, hcached]
    let s₁ := s.next i (.cachedTopic name) none s.state
    let s₂ := s₁.next i (.getTopic name) (s.state.store.getTopic name) s.state
    have hq : Quiet s₀ s₂ := (hs.1.next rfl).next rfl
    have hfetch : ∀ c, World.exec i (.getTopic name) c s.state = some (s.state.store.getTopic name, s.state) :=
      fun _ => rfl
    cases hget : s.state.store.getTopic name with
    | error e =>
      rw [hmodel, hget]
      exact ⟨s₂, Evals.call hex (Evals.call (hfetch _) (Eval.bind_error _ (Eval.lift_iff.mpr ⟨hget.symm, rfl⟩))), hq,
        hs.2⟩
    | ok topic =>
      rw [hmodel, hget]
      let w : World := { s.state with topics := s.state.topics.set name topic }
      have hprepared : Prepared s.state w := by
        refine ⟨rfl, rfl, rfl, rfl, rfl, rfl, rfl, rfl, fun _ => Iff.rfl, fun n t ht => ?_, fun n t ht => ?_⟩
        · have hne : n ≠ name := fun h => by
            rw [h, hcached] at ht
            cases ht
          simp [w, hne, ht]
        · simp only [w, Dict.get?_set] at ht
          split at ht
          · rename_i hn
            cases ht
            rw [hn, hmodel, hget]
          · rw [World.topicModel, ht]
      refine ⟨s₂.next i (.cacheTopic name topic) () w, Evals.call hex (Evals.call (hfetch _) (Evals.lift hget ?_)),
        hq.next rfl, hs.2.trans hprepared⟩
      exact Evals.call rfl (.pure _ _)

theorem getTopics_computes (names : List String) :
    Computes reply i (Checked s₀) (Checked s₀) (getTopics names) (s₀.state.topicModels names) := by
  induction names with
  | nil => exact .pure []
  | cons name rest ih =>
    exact (getTopic_computes name).bind (fun topic _ => ih.bind (fun topics _ => .pure _) fun _ h => h) fun _ h => h

/-- The quota is looked at. -/
theorem checkSubscriptionQuota_computes (hk : s₀.state.Keyed) (url : String) :
    Computes reply i (Untouched s₀) (Checked s₀) (checkSubscriptionQuota cfg url) (checkQuota cfg s₀.state url) := by
  unfold checkSubscriptionQuota checkQuota
  cases cfg.maxSubscriptionsPerSubscriber with
  | none => exact (Computes.pure ()).weaken fun _ h => h.checked
  | some quota =>
    dsimp only
    intro s hs
    obtain ⟨s₁, rows, hlist, hq, hs₁, hrows⟩ := listSubscriptions_eval (s := s) reply i (by rw [hs.2]; exact hk)
    have hchecked : Checked s₀ s₁ := by
      refine ⟨hs.1.trans hq, ?_⟩
      rw [← hs.2, hs₁]
      refine ⟨rfl, rfl, rfl, rfl, rfl, rfl, rfl, rfl, fun id => ?_, fun _ _ h => h, fun n t ht => ?_⟩
      · rw [World.withRows_rows, hrows, Option.map_eq_none_iff]
      · rw [World.topicModel, show s.state.topics.get? n = some t from ht]
    rw [hs.2] at hlist
    refine ⟨s₁, hlist.bind ?_, hchecked⟩
    show Evals reply i (if s₀.state.subscribed url ≥ quota then _ else _) _ _ _
    by_cases hfull : s₀.state.subscribed url ≥ quota
    · rw [if_pos hfull, if_pos hfull]
      exact Eval.lift_iff.mpr ⟨rfl, rfl⟩
    · rw [if_neg hfull, if_neg hfull]
      exact .pure _ _

/-- The rate limiter is asked. -/
theorem rateLimit_computes (req : SubscribeRequest) :
    Computes reply i (Untouched s₀) (Untouched s₀)
      (if cfg.rateLimiter then do
        orRaise (← perform (.rateLimit (match req.caller with
          | some caller => caller.subject
          | none => req.subscriberCardUrl) "subscribe")) else pure ())
      (if cfg.rateLimiter then (reply (sendCount s₀.trace)).limiter else .ok ()) := by
  cases cfg.rateLimiter with
  | false => exact .pure ()
  | true =>
    intro s hs
    exact ⟨s.next i (.rateLimit _ _) (reply (sendCount s₀.trace)).limiter s.state,
      Evals.call (by rw [hs.1.count]; rfl) (Eval.lift_iff.mpr ⟨rfl, rfl⟩), hs.1.next rfl, hs.2⟩

/-- The selector is held against its limits. -/
theorem selectorLimits_computes (req : SubscribeRequest) :
    Computes reply i (Untouched s₀) (Untouched s₀)
      (match cfg.selectorLimits with
        | some limits => orRaise (limits.check req.selector)
        | none => pure ())
      (match cfg.selectorLimits with
        | some limits => limits.check req.selector
        | none => .ok ()) := by
  cases cfg.selectorLimits with
  | none => exact .pure ()
  | some limits => exact .lift _

/-- The checks of a subscribe. -/
theorem checkSubscribe_eval (hk : s₀.state.Keyed) (req : SubscribeRequest) (topics : List String) :
    Computes reply i (Untouched s₀) (Checked s₀) (checkSubscribe cfg req topics)
      (verdict cfg (reply (sendCount s₀.trace)).limiter s₀.state req topics) := by
  have hself : ∀ s, Checked s₀ s → Checked s₀ s := fun _ h => h
  have hchecked : ∀ s, Untouched s₀ s → Checked s₀ s := fun _ h => h.checked
  have hcaller : ∀ {f : Unit → M (ResolvedDelivery × List Topic)}
      {g : Unit → Except PyError (ResolvedDelivery × List Topic)},
      Computes reply i (Untouched s₀) (Checked s₀) (f ()) (g ()) →
      Computes reply i (Untouched s₀) (Checked s₀)
        (perform (.authorizeSubscribe req.caller topics) >>= fun r => orRaise r >>= f)
        (checkCaller s₀.state req.caller topics >>= g) := by
    intro f g hf s hs
    let s₁ := s.next i (.authorizeSubscribe req.caller topics) (checkCaller s₀.state req.caller topics) s.state
    obtain ⟨s₂, hrun, hs₂⟩ := ((Computes.lift _).bind (fun _ _ => hf) hchecked) s₁ ⟨hs.1.next rfl, hs.2⟩
    exact ⟨s₂, Evals.call (by rw [hs.2]; rfl) hrun, hs₂⟩
  unfold checkSubscribe verdict
  refine (rateLimit_computes req).bind (fun _ _ => ?_) hchecked
  refine (selectorLimits_computes req).bind (fun _ _ => hcaller ?_) hchecked
  refine (checkSubscriptionQuota_computes hk _).bind (fun _ _ => ?_) hself
  refine (Computes.lift _).bind (fun card _ => (Computes.lift _).bind (fun _ _ => ?_) hself) hself
  refine (Computes.lift _).bind (fun resolved _ => ?_) hself
  refine (getTopics_computes topics).bind (fun models _ => ?_) hself
  exact (Computes.lift _).bind (fun _ _ => .pure (resolved, models)) hself

/-! ## The start offsets -/

/-- The head of a topic is looked up. -/
theorem headOffset_computes (topic : String) :
    Computes reply i (Checked s₀) (Checked s₀) (headOffset topic) (s₀.state.store.headOf topic) := by
  intro s hs
  rw [← hs.2.store]
  have hcount : ∀ c, World.exec i (.count topic) c s.state = some (s.state.store.count topic, s.state) := fun _ => rfl
  let s₁ := s.next i (.count topic) (s.state.store.count topic) s.state
  by_cases hzero : s.state.store.count topic = 0
  · refine ⟨s₁, Evals.call (hcount _) ?_, hs.1.next rfl, hs.2⟩
    rw [if_pos hzero, EventStore.headOf, if_pos hzero]
    exact .pure _ _
  · have hlatest : ∀ c, World.exec i (.latestCursor topic) c s.state =
        some (s.state.store.latestCursor topic, s.state) := fun _ => rfl
    let s₂ := s₁.next i (.latestCursor topic) (s.state.store.latestCursor topic) s.state
    have hrest : Computes reply i (Checked s₀) (Checked s₀)
        (orRaise (s.state.store.latestCursor topic) >>= fun latest =>
          orRaise (Cursor.offsetOf latest) >>= fun offset => pure (offset : Int))
        (s.state.store.latestCursor topic >>= fun latest =>
          Cursor.offsetOf latest >>= fun offset => pure (offset : Int)) :=
      (Computes.lift _).bind (fun _ _ => (Computes.lift _).bind (fun _ _ => .pure _) fun _ h => h) fun _ h => h
    obtain ⟨s₃, hrun, hs₃⟩ := hrest s₂ ⟨(hs.1.next rfl).next rfl, hs.2⟩
    refine ⟨s₃, Evals.call (hcount _) ?_, hs₃⟩
    rw [if_neg hzero, EventStore.headOf, if_neg hzero]
    exact Evals.call (hlatest _) hrun

/-- One start offset. -/
theorem startOffset_computes (topic fromCursor : String) :
    Computes reply i (Checked s₀) (Checked s₀) (startOffset topic fromCursor) (s₀.state.startOf topic fromCursor) := by
  have hself : ∀ s, Checked s₀ s → Checked s₀ s := fun _ h => h
  unfold startOffset World.startOf
  by_cases hearliest : fromCursor = Cursor.earliest
  · rw [if_pos hearliest, if_pos hearliest]
    exact .pure _
  rw [if_neg hearliest, if_neg hearliest]
  by_cases hlatest : fromCursor = Cursor.latest
  · rw [if_pos hlatest, if_pos hlatest]
    exact headOffset_computes topic
  rw [if_neg hlatest, if_neg hlatest]
  refine (Computes.lift _).bind (fun cursorTopic _ => ?_) hself
  by_cases htopic : cursorTopic = topic
  · rw [if_pos htopic, if_pos htopic]
    intro s hs
    rw [← hs.2.store, ← hs.2.clock]
    let page := s.state.store.read s.state.clock topic (some fromCursor) (some fromCursor) 1
    let s₁ := s.next i (.read topic (some fromCursor) (some fromCursor) 1) page s.state
    have hrest : Computes reply i (Checked s₀) (Checked s₀)
        (orRaise page >>= fun _ => orRaise (Cursor.offsetOf fromCursor) >>= fun offset => pure (offset : Int))
        (page >>= fun _ => Cursor.offsetOf fromCursor >>= fun offset => pure (offset : Int)) :=
      (Computes.lift _).bind (fun _ _ => (Computes.lift _).bind (fun _ _ => .pure _) hself) hself
    obtain ⟨s₂, hrun, hs₂⟩ := hrest s₁ ⟨hs.1.next rfl, hs.2⟩
    exact ⟨s₂, Evals.call (exec_read rfl) hrun, hs₂⟩
  · rw [if_neg htopic, if_neg htopic]
    exact headOffset_computes topic

/-- The start offsets. -/
theorem startOffsets_eval (fromCursor : String) (models : List Topic) : ∀ acc : Dict String Int,
    Computes reply i (Checked s₀) (Checked s₀) (startOffsets fromCursor acc models)
      (s₀.state.startsOf fromCursor acc models) := by
  induction models with
  | nil => exact fun acc => .pure acc
  | cons topic rest ih =>
    exact fun acc => (startOffset_computes topic.name fromCursor).bind (fun offset _ => ih _) fun _ h => h

/-! ## Up to the new subscription -/

/-- The first part of a subscribe: everything up to the new subscription. -/
def addSubscription (cfg : PublisherConfig) (req : SubscribeRequest) : M Handle := do
  orRaise (checkLease cfg req.leaseSeconds)
  let (resolved, topicModels) ← checkSubscribe cfg req req.topicNames
  let now ← perform .now
  let hex ← perform .uuid
  let offsets ← startOffsets req.fromCursor ∅ topicModels
  perform (.add
    { subscriptionId := "sub_" ++ hex
      status := .active
      subscriberCardUrl := req.subscriberCardUrl
      topics := req.topicNames
      selector := req.selector
      delivery := resolved
      createdAt := now
      leaseUntil := now + seconds req.leaseSeconds
      cursors := ∅ } offsets)

/-- The second part: the backlog. -/
def finishSubscribe (cfg : PublisherConfig) (fuel : Nat) (h : Handle) : M Subscription := do
  (if !cfg.deferredDispatch then do
    let _ ← dispatchSubscription cfg fuel h none
    pure ()
  else pure ())
  let h ← perform (.deref h)
  pure h.sub

theorem subscribe_eq (cfg : PublisherConfig) (fuel : Nat) (req : SubscribeRequest) :
    subscribe cfg fuel req = addSubscription cfg req >>= finishSubscribe cfg fuel := by
  unfold subscribe addSubscription
  rw [Prog.bind_assoc]
  congr 1
  funext _
  show (checkSubscribe cfg req req.topicNames >>= _) = (checkSubscribe cfg req req.topicNames >>= _) >>= _
  rw [Prog.bind_assoc]
  congr 1
  funext checks
  obtain ⟨resolved, topicModels⟩ := checks
  show (perform .now >>= _) = (perform .now >>= _) >>= _
  rw [Prog.bind_assoc]
  congr 1
  funext now
  rw [Prog.bind_assoc]
  congr 1
  funext hex
  show (startOffsets req.fromCursor ∅ topicModels >>= _) = (startOffsets req.fromCursor ∅ topicModels >>= _) >>= _
  rw [Prog.bind_assoc]
  rfl

/-- The world after a subscription was added. -/
structure Admitted (sub : Subscription) (offsets : Dict String Int) (w w' : World) : Prop where
  clock : w'.clock = w.clock
  uuids : w'.uuids = w.uuids + 1
  store : w'.store = w.store
  queue : w'.queue = w.queue
  locks : w'.locks = w.locks
  authorizer : w'.authorizer = w.authorizer
  row : w'.subs.rows.get? sub.subscriptionId = some sub
  rows : ∀ id, id ≠ sub.subscriptionId → (w'.subs.rows.get? id = none ↔ w.subs.rows.get? id = none)
  position : ∀ topic, w'.subs.position sub.subscriptionId topic = offsets.getD topic (-1)
  topicModel : ∀ name, w'.topicModel name = w.topicModel name

/-- A subscribe is refused before it adds anything, or adds what it resolved. -/
theorem addSubscription_eval (reply : Nat → Choice) (i : Nat) {s : Snapshot cfg fuel} (hk : s.state.Keyed)
    (req : SubscribeRequest) (hfresh : s.state.subs.rows.get? ("sub_" ++ uuidHex s.state.uuids) = none) :
    ∃ s', Quiet s s' ∧
      ((∃ e, admission cfg (reply (sendCount s.trace)).limiter s.state req = .error e ∧
          Evals reply i (addSubscription cfg req) s (.error e) s' ∧
          ∀ id, s'.state.subs.rows.get? id = none ↔ s.state.subs.rows.get? id = none) ∨
        ∃ resolved models offsets,
          admission cfg (reply (sendCount s.trace)).limiter s.state req = .ok (resolved, models, offsets) ∧
          Evals reply i (addSubscription cfg req) s
            (.ok ⟨req.subscription s.state resolved, req.subscription s.state resolved⟩) s' ∧
          Admitted (req.subscription s.state resolved) offsets s.state s'.state ∧
          (req.subscription s.state resolved, offsets) ∈ added s'.trace) := by
  unfold admission
  cases hlease : checkLease cfg req.leaseSeconds with
  | error e =>
    refine ⟨s, .refl s, .inl ⟨e, rfl, ?_, fun _ => Iff.rfl⟩⟩
    exact Eval.bind_error _ (Eval.lift_iff.mpr ⟨hlease.symm, rfl⟩)
  | ok u =>
    have hchecks : Computes reply i (Untouched s) (Checked s) (checkSubscribe cfg req req.topicNames)
        (verdict cfg (reply (sendCount s.trace)).limiter s.state req req.topicNames) := checkSubscribe_eval hk _ _
    obtain ⟨s₁, hcheck, hq₁, hp₁⟩ := hchecks s ⟨.refl s, rfl⟩
    cases hverdict : verdict cfg (reply (sendCount s.trace)).limiter s.state req req.topicNames with
    | error e =>
      rw [hverdict] at hcheck
      exact ⟨s₁, hq₁, .inl ⟨e, rfl, Evals.lift hlease (Eval.bind_error _ hcheck), hp₁.rows⟩⟩
    | ok checks =>
      obtain ⟨resolved, models⟩ := checks
      rw [hverdict] at hcheck
      let s₂ := s₁.next i .now s₁.state.clock s₁.state
      let w₃ : World := { s₁.state with uuids := s₁.state.uuids + 1 }
      let s₃ := s₂.next i .uuid (uuidHex s₁.state.uuids) w₃
      have hq₃ : Quiet s s₃ := (hq₁.next rfl).next rfl
      have hcomputes : Computes reply i (Checked s₃) (Checked s₃) (startOffsets req.fromCursor ∅ models)
          (s₃.state.startsOf req.fromCursor ∅ models) := startOffsets_eval _ _ _
      have hsame : s₃.state.startsOf req.fromCursor ∅ models = s.state.startsOf req.fromCursor ∅ models :=
        @World.startsOf_congr s.state s₃.state hp₁.store hp₁.clock _ _ _
      rw [hsame] at hcomputes
      obtain ⟨s₄, hstarts, hq₄, hp₄⟩ := hcomputes s₃ ⟨.refl s₃, .refl _⟩
      have hrun : ∀ {res : Except PyError Handle} {s' : Snapshot cfg fuel},
          Evals reply i (startOffsets req.fromCursor ∅ models >>= fun offsets =>
            perform (.add (req.subscription s.state resolved) offsets)) s₃ res s' →
          Evals reply i (addSubscription cfg req) s res s' := by
        intro res s' h
        have hsub : req.subscription s₁.state resolved = req.subscription s.state resolved := by
          rw [SubscribeRequest.subscription, SubscribeRequest.subscription, hp₁.uuids, hp₁.clock]
        rw [← hsub] at h
        exact Evals.lift hlease (hcheck.bind (Evals.call rfl (Evals.call rfl h)))
      cases hoffsets : s.state.startsOf req.fromCursor ∅ models with
      | error e =>
        rw [hoffsets] at hstarts
        refine ⟨s₄, hq₃.trans hq₄, .inl ⟨e, ?_, hrun (Eval.bind_error _ hstarts), fun id => ?_⟩⟩
        · show (s.state.startsOf req.fromCursor ∅ models >>= _) = _
          rw [hoffsets]
          rfl
        · exact (hp₄.rows id).trans (hp₁.rows id)
      | ok offsets =>
        rw [hoffsets] at hstarts
        let sub := req.subscription s.state resolved
        have hstate : s₄.state.uuids = s.state.uuids + 1 := by
          rw [hp₄.uuids]
          exact congrArg (· + 1) hp₁.uuids
        have hunused : s₄.state.subs.rows.get? sub.subscriptionId = none :=
          (hp₄.rows _).mpr ((hp₁.rows _).mpr hfresh)
        let w₅ : World := { s₄.state with subs := s₄.state.subs.add sub offsets }
        have hadd : ∀ c, World.exec i (.add sub offsets) c s₄.state = some (⟨sub, sub⟩, w₅) := by
          intro c
          simp only [World.exec, hunused]
          rfl
        let s₅ := s₄.next i (.add sub offsets) ⟨sub, sub⟩ w₅
        refine ⟨s₅, (hq₃.trans hq₄).next rfl, .inr ⟨resolved, models, offsets, ?_,
          hrun (hstarts.bind (Evals.last (hadd _))), ?_, ?_⟩⟩
        · show (s.state.startsOf req.fromCursor ∅ models >>= _) = _
          rw [hoffsets]
          rfl
        · exact
            { clock := hp₄.clock.trans hp₁.clock
              uuids := hstate
              store := hp₄.store.trans hp₁.store
              queue := hp₄.queue.trans hp₁.queue
              locks := hp₄.locks.trans hp₁.locks
              authorizer := hp₄.authorizer.trans hp₁.authorizer
              row := by simp [s₅, w₅, SubscriptionStore.add, sub]
              rows := fun id hne => by
                have hother : s₅.state.subs.rows.get? id = s₄.state.subs.rows.get? id :=
                  (Dict.get?_set _ _ _ _).trans (if_neg hne)
                rw [hother]
                exact (hp₄.rows id).trans (hp₁.rows id)
              position := fun topic => by
                have hown : s₅.state.subs.positions.get? sub.subscriptionId = some offsets :=
                  (Dict.get?_set _ _ _ _).trans (if_pos rfl)
                rw [SubscriptionStore.position, SubscriptionStore.highWater, hown]
                rfl
              topicModel := fun name => ((hp₄.topicModel name).trans (hp₁.topicModel name)) }
        · rw [Snapshot.next_trace, added_concat]
          exact List.mem_append_right _ (List.mem_singleton.mpr rfl)

end

end A2AEvents
