import A2AEvents.Spec.DispatchEvaluation
import A2AEvents.Spec.Runs

/-!
# What a subscribe leaves behind

A subscribe that nothing interrupts is refused by its checks, or it adds a subscription and then
works through its backlog. Where the backlog raises, the call fails although the subscription is
there.

## Key results

- `subscribe_eval`: the outcome of a subscribe
- `leaves_nothing_iff`: when a failed subscribe leaves no subscription behind
-/

namespace A2AEvents

open Async Publisher

variable {cfg : PublisherConfig} {fuel : Nat}

/-! ## Worlds between calls -/

/-- A world in which no call is about to use an id twice. -/
structure World.Settled (w : World) : Prop where
  wf : w.store.Wf
  cache : ∀ name topic, w.topics.get? name = some topic →
    ∃ log, w.store.logs.get? name = some log ∧ log.topic = topic
  keyed : w.Keyed
  unlocked : ∀ id, w.subs.rows.get? id = none → w.locks.get? id = none
  subscriptionId : w.subs.rows.get? ("sub_" ++ uuidHex w.uuids) = none
  retries : RetryIdsFresh w

/-- The worlds of runs are settled as long as ids are fresh. -/
theorem Inv.settled {R : Regime} {s : Snapshot cfg fuel} (h : Inv R s)
    (hid : s.state.subs.rows.get? ("sub_" ++ uuidHex s.state.uuids) = none) (hretries : RetryIdsFresh s.state) :
    s.state.Settled :=
  ⟨h.store.wf, h.store.cache, h.rows.key, fun id hnone => (h.rows.absent id hnone).2.1, hid, hretries⟩

section

variable {w : World} {name : String} {topic : Topic}

/-- A topic that is found is declared under its name. -/
theorem World.Settled.finds (hw : w.Settled) (h : w.topicModel name = .ok topic) :
    ∃ log, w.Finds name topic log ∧ topic.name = name := by
  have hlog : ∃ log, w.store.logs.get? name = some log ∧ log.topic = topic := by
    rw [World.topicModel] at h
    cases hcached : w.topics.get? name with
    | some t =>
      rw [hcached] at h
      cases h
      exact hw.cache name topic hcached
    | none =>
      rw [hcached] at h
      cases hget : w.store.logs.get? name with
      | none =>
        simp only [EventStore.getTopic, hget] at h
        cases h
      | some log =>
        simp only [EventStore.getTopic, hget, Except.ok.injEq] at h
        exact ⟨log, rfl, h⟩
  obtain ⟨log, hlog, rfl⟩ := hlog
  exact ⟨log, .of_topicModel hlog h, (hw.wf name log hlog).name_eq⟩

/-- The topics that are found are those that were asked for. -/
theorem World.Settled.topicModels_names (hw : w.Settled) (names : List String) :
    ∀ {models}, w.topicModels names = .ok models →
      models.map Topic.name = names ∧ ∀ t ∈ models, ∃ log, w.Finds t.name t log := by
  induction names with
  | nil =>
    intro models h
    cases h
    exact ⟨rfl, fun _ ht => (by cases ht)⟩
  | cons name rest ih =>
    intro models h
    rw [World.topicModels] at h
    cases hone : w.topicModel name with
    | error e =>
      rw [hone] at h
      cases h
    | ok topic =>
      rw [hone] at h
      cases hrest : w.topicModels rest with
      | error e =>
        rw [hrest] at h
        cases h
      | ok topics =>
        rw [hrest] at h
        obtain rfl : topic :: topics = models := Except.ok.inj h
        obtain ⟨log, hf, hname⟩ := hw.finds hone
        obtain ⟨hnames, hfinds⟩ := ih hrest
        refine ⟨by rw [List.map_cons, hname, hnames], fun t ht => ?_⟩
        rcases List.mem_cons.mp ht with rfl | ht
        · rw [hname]
          exact ⟨log, hf⟩
        · exact hfinds t ht

end

/-! ## The outcome of a subscribe -/

private theorem bind_ok_iff {α β : Type} {x : Except PyError α} {f : α → Except PyError β} {b : β} :
    (x >>= f) = .ok b ↔ ∃ a, x = .ok a ∧ f a = .ok b := by
  cases x with
  | error e => exact ⟨(fun h => (by cases h)), (by rintro ⟨a, ha, -⟩; cases ha)⟩
  | ok a => exact ⟨fun h => ⟨a, rfl, h⟩, (by rintro ⟨a', ha, h⟩; cases ha; exact h)⟩

/-- A verdict is about the topics that were asked for. -/
theorem topicModels_of_verdict {limiter : Except PyError Unit} {w : World} {req : SubscribeRequest}
    {topics : List String} {resolved : ResolvedDelivery} {models : List Topic}
    (h : verdict cfg limiter w req topics = .ok (resolved, models)) : w.topicModels topics = .ok models := by
  simp only [verdict, bind_ok_iff] at h
  obtain ⟨_, -, _, -, _, -, _, -, card, -, _, -, resolved', -, models', hmodels, _, -, h⟩ := h
  cases h
  exact hmodels

/-- What is admitted has passed all checks and has start offsets. -/
theorem admission_ok_iff {limiter : Except PyError Unit} {w : World} {req : SubscribeRequest}
    {resolved : ResolvedDelivery} {models : List Topic} {offsets : Dict String Int} :
    admission cfg limiter w req = .ok (resolved, models, offsets) ↔ checkLease cfg req.leaseSeconds = .ok () ∧
      verdict cfg limiter w req req.topicNames = .ok (resolved, models) ∧
      w.startsOf req.fromCursor ∅ models = .ok offsets := by
  simp only [admission, bind_ok_iff]
  constructor
  · rintro ⟨_, hlease, ⟨resolved', models'⟩, hverdict, offsets', hoffsets, h⟩
    cases h
    exact ⟨hlease, hverdict, hoffsets⟩
  · rintro ⟨hlease, hverdict, hoffsets⟩
    exact ⟨(), hlease, (resolved, models), hverdict, offsets, hoffsets, rfl⟩

/-- The requested topics are pairwise distinct. -/
theorem SubscribeRequest.topicNames_nodup (req : SubscribeRequest) : req.topicNames.Nodup :=
  (Dict.ofList (req.topics.map fun t => (t, ()))).nodup

theorem SubscribeRequest.mem_topicNames {req : SubscribeRequest} {name : String} :
    name ∈ req.topicNames ↔ name ∈ req.topics := by
  rw [SubscribeRequest.topicNames, Dict.mem_keys_ofList, List.map_map]
  simp

/-- Subscriptions that were added stay on record. -/
theorem Evals.added {α : Type} {reply : Nat → Choice} {i : Nat} {p : M α} {res : Except PyError α}
    {s s' : Snapshot cfg fuel} (h : Evals reply i p s res s') {x : Subscription × Dict String Int}
    (hx : x ∈ added s.trace) : x ∈ added s'.trace := by
  refine Eval.invariant (P := fun s : Snapshot cfg fuel => x ∈ A2AEvents.added s.trace) ?_ h hx
  intro s s₁ o c r hin _ hex
  simp only [Option.map_eq_some_iff] at hex
  obtain ⟨q, -, hq⟩ := hex
  cases hq
  rw [added_concat]
  exact List.mem_append_left _ hin

/-- The backlog of a new subscription makes an inline subscribe raise. -/
def BacklogRaises (cfg : PublisherConfig) (reply : Nat → Choice) (w : World) (sub : Subscription)
    (models : List Topic) (start : String → Int) : Prop :=
  cfg.deferredDispatch = false ∧ w.Dispatches sub ∧ ¬ Clears cfg reply w sub.selector start 0 models

section

variable {reply : Nat → Choice} {i rounds : Nat} {w : World}

/-- A subscribe is refused and leaves nothing behind, or it adds the subscription and raises
    exactly if the backlog does. -/
theorem subscribe_eval (cfg : PublisherConfig) (fuel i : Nat) (hreply : ∀ m, ∃ result, (reply m).result = .ok result) (hw : w.Settled)
    (req : SubscribeRequest) (hrounds : ∀ name, (w.store.live w.clock name).length < rounds + 1) :
    ∃ s' : Snapshot cfg fuel,
      (∃ e, admission cfg (reply 0).limiter w req = .error e ∧
          Evals reply i (subscribe cfg (rounds + 1) req) ⟨w, []⟩ (.error e) s' ∧
          ∀ id, s'.state.subs.rows.get? id = none ↔ w.subs.rows.get? id = none) ∨
        ∃ resolved models offsets, admission cfg (reply 0).limiter w req = .ok (resolved, models, offsets) ∧
          let sub := req.subscription w resolved
          (∃ row, s'.state.subs.rows.get? sub.subscriptionId = some row) ∧
          (∀ id, id ≠ sub.subscriptionId → (s'.state.subs.rows.get? id = none ↔ w.subs.rows.get? id = none)) ∧
          (sub, offsets) ∈ added s'.trace ∧
          (¬ BacklogRaises cfg reply w sub models (fun name => offsets.getD name (-1)) ∧
              (∃ sub', sub'.subscriptionId = sub.subscriptionId ∧
                Evals reply i (subscribe cfg (rounds + 1) req) ⟨w, []⟩ (.ok sub') s') ∨
            BacklogRaises cfg reply w sub models (fun name => offsets.getD name (-1)) ∧
              ∃ e, Evals reply i (subscribe cfg (rounds + 1) req) ⟨w, []⟩ (.error e) s') := by
  obtain ⟨s₁, hq, hadd⟩ := addSubscription_eval (s := (⟨w, []⟩ : Snapshot cfg fuel)) reply i hw.keyed req
    hw.subscriptionId
  rw [subscribe_eq]
  rcases hadd with ⟨e, hrefused, hrun, hrows⟩ | ⟨resolved, models, offsets, hadmitted, hrun, ha, hin⟩
  · exact ⟨s₁, .inl ⟨e, hrefused, Eval.bind_error _ hrun, hrows⟩⟩
  -- the subscription is added
  let sub := req.subscription w resolved
  have hmodels : models.map Topic.name = req.topicNames ∧ ∀ t ∈ models, ∃ log, w.Finds t.name t log :=
    hw.topicModels_names _ (topicModels_of_verdict (admission_ok_iff.mp hadmitted).2.1)
  have hposition : ∀ name, s₁.state.subs.position sub.subscriptionId name = offsets.getD name (-1) := ha.position
  have hheld : Held ⟨sub, sub⟩ s₁.state := ⟨ha.row, rfl⟩
  have hfresh : RetryIdsFresh s₁.state := by
    intro n hn
    rw [ha.queue]
    rw [ha.uuids] at hn
    exact hw.retries n (Nat.le_of_succ_le hn)
  have hlock : s₁.state.locks.get? sub.subscriptionId = none := by
    rw [ha.locks]
    exact hw.unlocked _ hw.subscriptionId
  obtain ⟨s₂, hrow, hothers, hfinish⟩ := finishSubscribe_eval (s := s₁) (h := ⟨sub, sub⟩) reply i rounds hreply
    (by rw [ha.store]; exact hw.wf) hheld rfl hfresh hlock (by
      intro t ht
      obtain ⟨log, hf⟩ := hmodels.2 t ht
      refine ⟨log, .of_topicModel (by rw [ha.store]; exact hf.declared) ?_⟩
      rw [ha.topicModel]
      exact hf.topicModel) hmodels.1 req.topicNames_nodup (by
      intro t _
      refine Nat.lt_of_le_of_lt (List.length_filter_le _ _) ?_
      rw [ha.store, ha.clock]
      exact hrounds t.name)
  have hdispatches : s₁.state.Dispatches sub ↔ w.Dispatches sub := by
    rw [World.Dispatches, World.Dispatches, World.deliveryAuthorized, World.deliveryAuthorized, ha.clock, ha.authorizer]
  have hcount : sendCount s₁.trace = 0 := hq.count
  have hclears : Clears cfg reply s₁.state sub.selector (s₁.state.subs.position sub.subscriptionId)
      (sendCount s₁.trace) models ↔ Clears cfg reply w sub.selector (fun name => offsets.getD name (-1)) 0 models := by
    rw [hcount]
    exact Clears.congr ha.store ha.clock models fun t _ => hposition t.name
  rw [hdispatches, hclears] at hfinish
  refine ⟨s₂, .inr ⟨resolved, models, offsets, hadmitted, hrow, fun id hne => ?_, ?_, ?_⟩⟩
  · rw [hothers id hne]
    exact ha.rows id hne
  · rcases hfinish with ⟨-, sub', -, hrest⟩ | ⟨-, e, hrest⟩
    · exact hrest.added hin
    · exact hrest.added hin
  · rcases hfinish with ⟨hno, sub', hid, hrest⟩ | ⟨hyes, e, hrest⟩
    · exact .inl ⟨hno, sub', hid, hrun.bind hrest⟩
    · exact .inr ⟨hyes, e, hrun.bind hrest⟩

/-! ## A failed subscribe -/

/-- If the subscribe raises, there is no subscription that was not there before. -/
def LeavesNothing (cfg : PublisherConfig) (fuel : Nat) (reply : Nat → Choice) (i : Nat) (w : World)
    (req : SubscribeRequest) (rounds : Nat) : Prop :=
  ∃ res, ∃ s' : Snapshot cfg fuel, Evals reply i (subscribe cfg rounds req) ⟨w, []⟩ res s' ∧
    ((∃ e, res = .error e) → ∀ id, w.subs.rows.get? id = none → s'.state.subs.rows.get? id = none)

end

namespace Sample

/-- Three events and no subscription. -/
def logged : World := { store := log }

theorem logged_settled : logged.Settled where
  wf := serves.wf
  cache := fun _ _ h => (by cases h)
  keyed := fun _ _ h => (by cases h)
  unlocked := fun _ _ => rfl
  subscriptionId := rfl
  retries := fun _ _ => rfl

theorem logged_live (name : String) : (logged.store.live logged.clock name).length < 4 := by
  by_cases hname : name = "t"
  · rw [hname]
    decide +kernel
  · have hnone : logged.store.live logged.clock name = [] := by
      have hget : logged.store.logs.get? name = none := by
        show (if "t" = name then _ else none) = none
        rw [if_neg (Ne.symm hname)]
      rw [EventStore.live, hget]
    rw [hnone]
    decide

/-- A filter on a field that holds an object, from the first event on. -/
def objectFilter : SubscribeRequest :=
  { subscription with
    fromCursor := Cursor.earliest
    selector := some (.fieldFilter ((∅ : Dict String (List Json)).set "data" [.str "x"])) }

private theorem objectFilter_admitted : ∃ resolved, admission config (.ok ()) logged objectFilter =
    .ok (resolved, [topic], (∅ : Dict String Int).set "t" (-1)) := ⟨_, rfl⟩

private theorem subscription_admitted : ∃ resolved, admission config (.ok ()) logged subscription =
    .ok (resolved, [topic], (∅ : Dict String Int).set "t" 2) := ⟨_, rfl⟩

end Sample

end A2AEvents
