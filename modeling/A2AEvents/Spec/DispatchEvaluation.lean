import A2AEvents.Spec.SubscribeEvaluation

/-!
# Dispatching alone

A dispatch that nothing interrupts catches up with one topic of its subscription after the other.
It returns unless something in the backlog raises: a selector on an event, a delivery, or the
events of a topic without a name.

## Key results

- `sweep_error_eq_none_iff`: when a sweep raises nothing
- `catchUpAll_eval`: when the catch-ups with several topics raise nothing
- `finishSubscribe_eval`: what a subscribe does after it has added the subscription
-/

namespace A2AEvents

open Async Publisher

variable {cfg : PublisherConfig} {fuel : Nat}

/-! ## Backlogs -/

/-- The events of a topic after a position that the selector of a subscription takes. -/
def World.backlog (cfg : PublisherConfig) (w : World) (selector : Option Selector) (topic : Topic)
    (position : Int) : List EventRecord :=
  (w.ahead topic.name position).filter (takes cfg topic selector)

/-- Whether a topic can be read from a position. -/
def World.Readable (w : World) (name : String) (position : Int) : Prop :=
  position < 10 ^ Cursor.maxStrDigits ∧ (name = "" → position < 0 ∧ w.store.live w.clock name = [])

/-- Nothing in the backlog of a topic raises. -/
structure ClearsTopic (cfg : PublisherConfig) (reply : Nat → Choice) (w : World) (selector : Option Selector)
    (position : Int) (base : Nat) (topic : Topic) : Prop where
  readable : w.Readable topic.name position
  decides : ∀ r ∈ w.ahead topic.name position, Decides cfg topic selector r
  completes : Completes cfg reply base (w.backlog cfg selector topic position)

/-- Nothing in the backlogs of several topics raises; the first send is answered by reply `base`. -/
def Clears (cfg : PublisherConfig) (reply : Nat → Choice) (w : World) (selector : Option Selector)
    (position : String → Int) (base : Nat) : List Topic → Prop
  | [] => True
  | topic :: rest => ClearsTopic cfg reply w selector (position topic.name) base topic ∧
      Clears cfg reply w selector position
        (base + (deliveries cfg reply base (w.backlog cfg selector topic (position topic.name))).sends) rest

section

variable {reply : Nat → Choice}

theorem sweep_error_eq_none_iff (hreply : ∀ m, ∃ result, (reply m).result = .ok result) {topic : Topic}
    {selector : Option Selector} (l : List EventRecord) : ∀ base,
    (sweep cfg reply topic selector base l).error = none ↔ (∀ r ∈ l, Decides cfg topic selector r) ∧
      Completes cfg reply base (l.filter (takes cfg topic selector)) := by
  induction l with
  | nil => exact fun base => ⟨fun _ => ⟨(fun _ hr => (by cases hr)), trivial⟩, fun _ => rfl⟩
  | cons r rest ih =>
    intro base
    rw [sweep]
    simp only [List.forall_mem_cons]
    cases hsel : selectorMatches cfg.lower selector (rawEventDict r) topic.filterableFields with
    | error e =>
      have hone : (sweepOne cfg reply topic selector base r).error = some e := by simp only [sweepOne, hsel]
      rw [Sweep.andThen_error hone, hone]
      refine ⟨(fun h => (by cases h)), fun h => ?_⟩
      have hdecides : Decides cfg topic selector r := h.1.1
      rw [Decides, hsel] at hdecides
      cases hdecides
    | ok taken =>
      have htakes : takes cfg topic selector r = taken := by simp only [takes, hsel]
      have hdecides : Decides cfg topic selector r := by rw [Decides, hsel, htakes]
      cases taken with
      | false =>
        have hone : sweepOne cfg reply topic selector base r = ⟨[], 0, none⟩ := by simp only [sweepOne, hsel]
        rw [hone, Sweep.nil_andThen, List.filter_cons_of_neg (by simp [htakes]), Nat.add_zero, ih]
        exact ⟨fun h => ⟨⟨hdecides, h.1⟩, h.2⟩, fun h => ⟨h.1.2, h.2⟩⟩
      | true =>
        have hone : sweepOne cfg reply topic selector base r = (delivery cfg reply base).swept r := by
          simp only [sweepOne, hsel]
        rw [hone, List.filter_cons_of_pos htakes, Completes]
        have hraises := @delivery_raises_iff cfg reply hreply base
        cases herror : ((delivery cfg reply base).swept r).error with
        | some e =>
          rw [Sweep.andThen_error herror, herror]
          exact ⟨(fun h => (by cases h)), fun h => absurd (hraises.mp ⟨e, (Course.swept_error _ r).mp herror⟩) h.2.1⟩
        | none =>
          have hover : ¬ Overflows cfg reply base := by
            intro h
            obtain ⟨e, he⟩ := hraises.mpr h
            rw [(Course.swept_error _ r).mpr he] at herror
            cases herror
          rw [Sweep.andThen_ok herror]
          show (sweep cfg reply topic selector (base + (delivery cfg reply base).sends) rest).error = none ↔ _
          rw [ih]
          exact ⟨fun h => ⟨⟨hdecides, h.1⟩, hover, h.2⟩, fun h => ⟨h.1.2, h.2.2⟩⟩

end

/-! ## One topic after the other -/

/-- What the catch-up of a subscription with some topics leaves alone. -/
structure Around (id : String) (names : List String) (w w' : World) : Prop where
  clock : w'.clock = w.clock
  store : w'.store = w.store
  locks : w'.locks = w.locks
  authorizer : w'.authorizer = w.authorizer
  rows : ∀ id', id' ≠ id → w'.subs.rows.get? id' = w.subs.rows.get? id'
  positions : ∀ name, name ∉ names → w'.subs.position id name = w.subs.position id name
  topicModel : ∀ name, w'.topicModel name = w.topicModel name

theorem Around.trans {id : String} {names names' : List String} {w w' w'' : World} (h : Around id names w w')
    (h' : Around id names' w' w'') : Around id (names ++ names') w w'' where
  clock := h'.clock.trans h.clock
  store := h'.store.trans h.store
  locks := h'.locks.trans h.locks
  authorizer := h'.authorizer.trans h.authorizer
  rows := fun id' hne => (h'.rows id' hne).trans (h.rows id' hne)
  positions := fun name hnot => (h'.positions name fun hin => hnot (List.mem_append_right _ hin)).trans
    (h.positions name fun hin => hnot (List.mem_append_left _ hin))
  topicModel := fun name => (h'.topicModel name).trans (h.topicModel name)

theorem World.topicModel_congr {w w' : World} (htopics : w'.topics = w.topics) (hstore : w'.store = w.store)
    (name : String) : w'.topicModel name = w.topicModel name := by
  rw [World.topicModel, World.topicModel, htopics, hstore]

theorem World.Finds.topicModel {w : World} {name : String} {topic : Topic} {log : TopicLog}
    (hf : w.Finds name topic log) : w.topicModel name = .ok topic := by
  have hcached := hf.cached
  rw [World.topicModel]
  cases hget : w.topics.get? name with
  | some t =>
    rw [hget] at hcached
    exact congrArg Except.ok hcached
  | none =>
    rw [hget] at hcached
    simp only [EventStore.getTopic, hf.declared]
    exact congrArg Except.ok hcached

/-- Caching the declaration of a topic does not change it. -/
theorem World.Finds.gains {w : World} {name : String} {topic : Topic} {log : TopicLog}
    (hf : w.Finds name topic log) {topics : Dict String Topic} (hg : Gains name topic w.topics topics) (n : String) :
    ({ w with topics := topics } : World).topicModel n = w.topicModel n := by
  rcases hg n with hsame | ⟨rfl, hnew⟩
  · rw [World.topicModel, World.topicModel, hsame]
  · rw [hf.topicModel, World.topicModel, hnew]

section

variable {reply : Nat → Choice} {i : Nat} {s : Snapshot cfg fuel} {h : Handle} {topic : Topic} {log : TopicLog}

/-- Nothing but the cache has changed. -/
private theorem around_of_topics (id : String) (names : List String) {s' : Snapshot cfg fuel}
    (hf : s.state.Finds topic.name topic log) {topics : Dict String Topic}
    (hg : Gains topic.name topic s.state.topics topics) (hs' : s'.state = { s.state with topics := topics }) :
    Around id names s.state s'.state := by
  rw [hs']
  exact ⟨rfl, rfl, rfl, rfl, fun _ _ => rfl, fun _ _ => rfl, hf.gains hg⟩

private theorem held_of_topics {s' : Snapshot cfg fuel} (hh : Held h s.state) {topics : Dict String Topic}
    (hs' : s'.state = { s.state with topics := topics }) : Held h s'.state := by
  rw [hs']
  exact ⟨hh.row, hh.base⟩

private theorem fresh_of_topics {s' : Snapshot cfg fuel} (hfresh : RetryIdsFresh s.state) {topics : Dict String Topic}
    (hs' : s'.state = { s.state with topics := topics }) : RetryIdsFresh s'.state := by
  rw [hs']
  exact hfresh

/-- A catch-up with one topic returns exactly if nothing in its backlog raises. -/
theorem catchUp_clears (reply : Nat → Choice) (i rounds : Nat)
    (hreply : ∀ m, ∃ result, (reply m).result = .ok result) (hwf : s.state.store.Wf)
    (hf : s.state.Finds topic.name topic log) (hh : Held h s.state) (hfresh : RetryIdsFresh s.state)
    (hrounds : (s.state.ahead topic.name (s.state.subs.position h.sub.subscriptionId topic.name)).length < rounds + 1) :
    let position := s.state.subs.position h.sub.subscriptionId topic.name
    let clears := ClearsTopic cfg reply s.state h.sub.selector position (sendCount s.trace) topic
    ∃ s' h', Held h' s'.state ∧ h'.sub.Alike h.sub ∧ RetryIdsFresh s'.state ∧
      Around h.sub.subscriptionId [topic.name] s.state s'.state ∧
      (clears ∧ (∃ n, Evals reply i (catchUp cfg (rounds + 1) h topic.name) s (.ok (n, h')) s') ∧
          sendCount s'.trace = sendCount s.trace + (deliveries cfg reply (sendCount s.trace)
            (s.state.backlog cfg h.sub.selector topic position)).sends ∨
        ¬ clears ∧ ∃ e, Evals reply i (catchUp cfg (rounds + 1) h topic.name) s (.error e) s') := by
  intro position clears
  by_cases hlt : position < 10 ^ Cursor.maxStrDigits
  swap
  · cases hfrom : cursorAt topic.name position with
    | ok from_ => exact absurd (cursorAt_ok_iff.mp ⟨from_, hfrom⟩) hlt
    | error e =>
      obtain ⟨s', topics, hraises, hs', hg⟩ := catchUp_unplaced reply i rounds hf hfrom
      exact ⟨s', h, held_of_topics hh hs', .refl _, fresh_of_topics hfresh hs', around_of_topics _ _ hf hg hs',
        .inr ⟨fun hc => hlt hc.readable.1, e, hraises⟩⟩
  obtain ⟨from_, hfrom⟩ := (@cursorAt_ok_iff topic.name position).mpr hlt
  by_cases hne : topic.name = ""
  · by_cases hempty : position < 0 ∧ s.state.store.live s.state.clock topic.name = []
    · -- a topic without a name and without events
      obtain rfl : from_ = none := by
        rw [cursorAt, if_neg (Int.not_le.mpr hempty.1)] at hfrom
        exact (Except.ok.inj hfrom).symm
      have hlive : EventStore.liveLog s.state.clock log = [] := by
        have := hempty.2
        rwa [EventStore.live, hf.declared] at this
      have hread : s.state.store.read s.state.clock topic.name none none cfg.pageSize = .ok ([], none) := by
        simp [EventStore.read, hf.declared, EventStore.startOffset, EventStore.endOffset, hlive, EventStore.collect]
      have hahead : s.state.ahead topic.name position = [] := by
        rw [World.ahead, hempty.2]
        rfl
      have hbacklog : s.state.backlog cfg h.sub.selector topic position = [] := by
        rw [World.backlog, hahead]
        rfl
      obtain ⟨s', topics, hrun, hq, hs', -, hg⟩ := catchUp_idle (h := h) reply i rounds hf hfrom hread
      refine ⟨s', h, held_of_topics hh hs', .refl _, fresh_of_topics hfresh hs', around_of_topics _ _ hf hg hs',
        .inl ⟨⟨⟨hlt, fun _ => hempty⟩, ?_, ?_⟩, ⟨0, hrun⟩, ?_⟩⟩
      · rw [hahead]
        exact fun _ hr => (by cases hr)
      · rw [hbacklog]
        trivial
      · rw [hbacklog]
        exact hq.count
    · have hlog := hf.declared
      rw [hne] at hlog hfrom hempty
      obtain ⟨e, hread, hcode⟩ := read_unnamed hwf hlog hfrom cfg.pageSize hempty
      rw [← hne] at hread hfrom
      obtain ⟨s', topics, hraises, hs', hg⟩ := catchUp_unread (h := h) reply i rounds hf hfrom hread hcode
      refine ⟨s', h, held_of_topics hh hs', .refl _, fresh_of_topics hfresh hs', around_of_topics _ _ hf hg hs',
        .inr ⟨fun hc => hempty ?_, e, hraises⟩⟩
      rw [← hne]
      exact hc.readable.2 hne
  · obtain ⟨s₁, topics, s', h', hq, hs₁, -, hg, hrun, hswept, -⟩ := catchUp_eval reply i hne (rounds + 1) hwf hf hh
      hfresh rfl hfrom hrounds
    have helse := hswept.elsewhere
    have haround : Around h.sub.subscriptionId [topic.name] s.state s'.state := by
      have hbefore := around_of_topics h.sub.subscriptionId [] hf hg hs₁
      have hafter : Around h.sub.subscriptionId [topic.name] s₁.state s'.state :=
        { clock := helse.clock
          store := helse.store
          locks := helse.locks
          authorizer := helse.authorizer
          rows := helse.rows
          positions := fun name hnot => helse.positions _ name fun heq => hnot (by simp [heq.2])
          topicModel := World.topicModel_congr helse.topics helse.store }
      exact hbefore.trans hafter
    refine ⟨s', h', hswept.held, hswept.alike, hswept.fresh, haround, ?_⟩
    have hiff := @sweep_error_eq_none_iff cfg reply hreply topic h.sub.selector
      (s.state.ahead topic.name position) (sendCount s.trace)
    cases herror : (sweep cfg reply topic h.sub.selector (sendCount s.trace)
        (s.state.ahead topic.name position)).error with
    | some e =>
      rw [herror] at hrun hiff
      refine .inr ⟨fun hc => ?_, e, hrun⟩
      have hnone := hiff.mpr ⟨hc.decides, hc.completes⟩
      cases hnone
    | none =>
      rw [herror] at hrun hiff
      obtain ⟨hdecides, hcompletes⟩ := hiff.mp rfl
      refine .inl ⟨⟨⟨hlt, fun h => absurd h hne⟩, hdecides, hcompletes⟩, ⟨_, hrun⟩, ?_⟩
      rw [hswept.count, hq.count, sweep_eq_deliveries hdecides]
      rfl

/-- What is in a backlog depends on the event store, the clock and the positions only. -/
theorem Clears.congr {w w' : World} {selector : Option Selector} {position position' : String → Int}
    (hstore : w'.store = w.store) (hclock : w'.clock = w.clock) (models : List Topic) : ∀ {base : Nat},
    (∀ t ∈ models, position' t.name = position t.name) →
    (Clears cfg reply w' selector position' base models ↔ Clears cfg reply w selector position base models) := by
  have hahead : ∀ name p, w'.ahead name p = w.ahead name p := fun name p => by
    rw [World.ahead, World.ahead, hstore, hclock]
  have hbacklog : ∀ t p, w'.backlog cfg selector t p = w.backlog cfg selector t p := fun t p => by
    rw [World.backlog, World.backlog, hahead]
  have hone : ∀ {t p base}, ClearsTopic cfg reply w' selector p base t ↔ ClearsTopic cfg reply w selector p base t := by
    intro t p base
    have hreadable : w'.Readable t.name p ↔ w.Readable t.name p := by
      rw [World.Readable, World.Readable, hstore, hclock]
    constructor
    · rintro ⟨hr, hd, hc⟩
      rw [hahead] at hd
      rw [hbacklog] at hc
      exact ⟨hreadable.mp hr, hd, hc⟩
    · rintro ⟨hr, hd, hc⟩
      rw [← hahead] at hd
      rw [← hbacklog] at hc
      exact ⟨hreadable.mpr hr, hd, hc⟩
  induction models with
  | nil => exact fun _ => Iff.rfl
  | cons t rest ih =>
    intro base hpos
    rw [Clears, Clears, hpos t (by simp), hone, hbacklog, ih fun q hq => hpos q (by simp [hq])]

theorem World.Finds.of_topicModel {w : World} {name : String} (hlog : w.store.logs.get? name = some log)
    (hmodel : w.topicModel name = .ok topic) : w.Finds name topic log := by
  refine ⟨hlog, ?_⟩
  rw [World.topicModel] at hmodel
  cases hget : w.topics.get? name with
  | some t =>
    rw [hget] at hmodel
    exact Except.ok.inj hmodel
  | none =>
    rw [hget] at hmodel
    simp only [EventStore.getTopic, hlog] at hmodel
    exact Except.ok.inj hmodel

/-- The catch-ups with several topics return exactly if nothing in the backlogs raises. -/
theorem catchUpAll_eval (reply : Nat → Choice) (i rounds : Nat)
    (hreply : ∀ m, ∃ result, (reply m).result = .ok result) (models : List Topic) :
    ∀ {s : Snapshot cfg fuel} {h : Handle} (processed : Nat), s.state.store.Wf → Held h s.state →
      RetryIdsFresh s.state → (∀ t ∈ models, ∃ log, s.state.Finds t.name t log) → (models.map Topic.name).Nodup →
      (∀ t ∈ models,
        (s.state.ahead t.name (s.state.subs.position h.sub.subscriptionId t.name)).length < rounds + 1) →
      let clears := Clears cfg reply s.state h.sub.selector (s.state.subs.position h.sub.subscriptionId)
        (sendCount s.trace) models
      ∃ s' h', Held h' s'.state ∧ h'.sub.Alike h.sub ∧
        Around h.sub.subscriptionId (models.map Topic.name) s.state s'.state ∧
        (clears ∧ (∃ n, Evals reply i (catchUpAll cfg (rounds + 1) processed h (models.map Topic.name)) s (.ok n) s') ∨
          ¬ clears ∧
            ∃ e, Evals reply i (catchUpAll cfg (rounds + 1) processed h (models.map Topic.name)) s (.error e) s') := by
  induction models with
  | nil =>
    intro s h processed _ hh _ _ _ _ clears
    exact ⟨s, h, hh, .refl _, ⟨rfl, rfl, rfl, rfl, fun _ _ => rfl, fun _ _ => rfl, fun _ => rfl⟩,
      .inl ⟨trivial, processed, .pure _ _⟩⟩
  | cons t rest ih =>
    intro s h processed hwf hh hfresh hfinds hnodup hrounds clears
    obtain ⟨log, hf⟩ := hfinds t (by simp)
    obtain ⟨hnotin, hnodup⟩ := List.nodup_cons.mp hnodup
    obtain ⟨s₁, h₁, hh₁, halike, hfresh₁, haround, hone⟩ := catchUp_clears reply i rounds hreply hwf hf hh hfresh
      (hrounds t (by simp))
    have hid := halike.subscriptionId
    rcases hone with ⟨hclears, ⟨n, hrun⟩, hcount⟩ | ⟨hclears, e, hrun⟩
    · have hposition : ∀ q ∈ rest, s₁.state.subs.position h.sub.subscriptionId q.name =
          s.state.subs.position h.sub.subscriptionId q.name := fun q hq => haround.positions _ fun hin =>
        hnotin (by rw [← List.mem_singleton.mp hin]; exact List.mem_map_of_mem hq)
      have hlater := @ih s₁ h₁ (processed + n) (by rw [haround.store]; exact hwf) hh₁ hfresh₁ (by
        intro q hq
        obtain ⟨log, hq⟩ := hfinds q (by simp [hq])
        refine ⟨log, .of_topicModel (by rw [haround.store]; exact hq.declared) ?_⟩
        rw [haround.topicModel]
        exact hq.topicModel) hnodup (by
        intro q hq
        rw [hid, hposition q hq, World.ahead, haround.store, haround.clock]
        exact hrounds q (by simp [hq]))
      obtain ⟨s₂, h₂, hh₂, halike₂, haround₂, hrest⟩ := hlater
      rw [hid] at haround₂ hrest
      rw [halike.selector, Clears.congr haround.store haround.clock rest hposition, hcount] at hrest
      refine ⟨s₂, h₂, hh₂, halike₂.trans halike, haround.trans haround₂, ?_⟩
      rcases hrest with ⟨hclears₂, m, hrun₂⟩ | ⟨hclears₂, e, hrun₂⟩
      · exact .inl ⟨⟨hclears, hclears₂⟩, m, hrun.bind hrun₂⟩
      · exact .inr ⟨fun hc => hclears₂ hc.2, e, hrun.bind hrun₂⟩
    · have hnames : ∀ name, name ∉ (t :: rest).map Topic.name → name ∉ [t.name] := fun name hnot hin =>
        hnot (by simp [List.mem_singleton.mp hin])
      exact ⟨s₁, h₁, hh₁, halike,
        { haround with positions := fun name hnot => haround.positions name (hnames name hnot) },
        .inr ⟨fun hc => hclears hc.1, e, Eval.bind_error _ hrun⟩⟩

/-- The backlog of a subscription is dispatched at all. -/
def World.Dispatches (w : World) (sub : Subscription) : Prop :=
  w.clock < sub.leaseUntil ∧ w.deliveryAuthorized sub = true

/-- A dispatch returns exactly if nothing in the backlogs raises or nothing is dispatched. -/
theorem dispatchSubscription_eval (reply : Nat → Choice) (i rounds : Nat)
    (hreply : ∀ m, ∃ result, (reply m).result = .ok result) {models : List Topic} (hwf : s.state.store.Wf)
    (hh : Held h s.state) (hactive : h.sub.status = .active) (hfresh : RetryIdsFresh s.state)
    (hlock : s.state.locks.get? h.sub.subscriptionId = none)
    (hfinds : ∀ t ∈ models, ∃ log, s.state.Finds t.name t log) (hnames : models.map Topic.name = h.sub.topics)
    (hnodup : h.sub.topics.Nodup)
    (hrounds : ∀ t ∈ models,
      (s.state.ahead t.name (s.state.subs.position h.sub.subscriptionId t.name)).length < rounds + 1) :
    let clears := Clears cfg reply s.state h.sub.selector (s.state.subs.position h.sub.subscriptionId)
      (sendCount s.trace) models
    ∃ s', (∃ row, s'.state.subs.rows.get? h.sub.subscriptionId = some row ∧
        row.subscriptionId = h.sub.subscriptionId) ∧
      (∀ id, id ≠ h.sub.subscriptionId → s'.state.subs.rows.get? id = s.state.subs.rows.get? id) ∧
      ((s.state.Dispatches h.sub → clears) ∧
          (∃ n, Evals reply i (dispatchSubscription cfg (rounds + 1) h none) s (.ok n) s') ∨
        (s.state.Dispatches h.sub ∧ ¬ clears) ∧
          ∃ e, Evals reply i (dispatchSubscription cfg (rounds + 1) h none) s (.error e) s') := by
  intro clears
  let id := h.sub.subscriptionId
  have htopics : (none : Option (List String)).getD h.sub.topics = models.map Topic.name := hnames.symm
  by_cases hlease : s.state.clock < h.sub.leaseUntil
  swap
  · -- the lease has run out
    obtain ⟨s₁, rows, hexpire, hq, hs₁, hrows⟩ := expireAndPersist_held (s := s) reply i hh
    have hlapsed : ¬ s.state.Dispatches h.sub := fun hd => hlease hd.1
    let sub := h.sub.lookedAt s.state.clock
    have hsub : sub.status = .expired := by
      show (Subscription.lookedAt _ _).status = _
      rw [Subscription.lookedAt, if_pos ⟨hactive, Int.not_lt.mp hlease⟩]
    have hrow : s₁.state.subs.rows.get? sub.subscriptionId = some sub := by
      rw [hs₁, World.withRows_rows, hrows, if_pos (Subscription.lookedAt_subscriptionId _ _)]
    have hheld : Held ⟨sub, sub⟩ s₁.state := ⟨hrow, rfl⟩
    have hderef : World.exec i (.deref ⟨sub, sub⟩) (reply (sendCount s₁.trace)) s₁.state =
        some (⟨sub, sub⟩, s₁.state) := by
      simp [World.exec, hheld.deref]
    let s₂ := s₁.next i (.deref ⟨sub, sub⟩) ⟨sub, sub⟩ s₁.state
    have hinactive : Evals reply i (isActive h) s (.ok (false, ⟨sub, sub⟩)) s₂ := by
      refine hexpire.bind (Evals.call hderef ?_)
      rw [hsub]
      exact .pure _ _
    refine ⟨s₂, ⟨sub, ?_, Subscription.lookedAt_subscriptionId _ _⟩, fun id' hne => ?_,
      .inl ⟨fun hd => absurd hd hlapsed, 0, hinactive.bind (.pure _ _)⟩⟩
    · rwa [Subscription.lookedAt_subscriptionId] at hrow
    · show s₁.state.subs.rows.get? id' = _
      rw [hs₁, World.withRows_rows, hrows, if_neg hne]
  obtain ⟨s₁, hrunning, hs₁, hq₁⟩ := isActive_eval (s := s) reply i hh.deref hactive hlease
  have hauthorize : World.exec i (.authorizeDelivery h) (reply (sendCount s₁.trace)) s₁.state =
      some (s.state.deliveryAuthorized h.sub, s₁.state) := by
    rw [hs₁]
    rfl
  let s₂ := s₁.next i (.authorizeDelivery h) (s.state.deliveryAuthorized h.sub) s₁.state
  have hq₂ : Quiet s s₂ := hq₁.next rfl
  by_cases hauth : s.state.deliveryAuthorized h.sub = true
  swap
  · -- the delivery is not authorized
    refine ⟨s₂, ⟨h.sub, ?_, rfl⟩, fun id' _ => ?_, .inl ⟨fun hd => absurd hd.2 hauth, 0, hrunning.bind ?_⟩⟩
    · show s₁.state.subs.rows.get? _ = _
      rw [hs₁]
      exact hh.row
    · show s₁.state.subs.rows.get? id' = _
      rw [hs₁]
    · refine Evals.call hauthorize ?_
      rw [if_pos (by rw [Bool.eq_false_of_not_eq_true hauth]; rfl)]
      exact Eval.pure_iff.mpr ⟨rfl, rfl⟩
  let w₃ : World := { s₁.state with locks := s₁.state.locks.set id i }
  have hacquire : World.exec i (.acquire id) (reply (sendCount s₂.trace)) s₂.state = some ((), w₃) := by
    have hfree : s₁.state.locks.get? id = none := by
      rw [hs₁]
      exact hlock
    show World.exec i (.acquire id) _ s₁.state = _
    simp [World.exec, hfree, w₃]
  let s₃ := s₂.next i (.acquire id) () w₃
  have hq₃ : Quiet s s₃ := hq₂.next rfl
  have hs₃ : s₃.state = { s.state with locks := s.state.locks.set id i } := by
    show w₃ = _
    simp only [w₃, hs₁]
  have hpast : Clears cfg reply s₃.state h.sub.selector (s₃.state.subs.position id) (sendCount s₃.trace) models ↔
      clears := by
    have hsubs : s₃.state.subs = s.state.subs := by rw [hs₃]
    rw [hq₃.count]
    exact Clears.congr (by rw [hs₃]) (by rw [hs₃]) models fun _ _ => by rw [hsubs]
  obtain ⟨s₄, h₄, hh₄, halike, haround, hall⟩ := catchUpAll_eval (s := s₃) (h := h) reply i rounds hreply models 0
    (by rw [hs₃]; exact hwf) (by rw [hs₃]; exact ⟨hh.row, hh.base⟩) (by rw [hs₃]; exact hfresh) (by
      intro t ht
      obtain ⟨log, hf⟩ := hfinds t ht
      rw [hs₃]
      exact ⟨log, hf.declared, hf.cached⟩) (by rw [hnames]; exact hnodup) (by
      intro t ht
      rw [hs₃]
      exact hrounds t ht)
  rw [hpast] at hall
  let w₅ : World := { s₄.state with locks := s₄.state.locks.erase id }
  let s₅ := s₄.next i (.release id) () w₅
  have hfinal : (∃ row, s₅.state.subs.rows.get? id = some row ∧ row.subscriptionId = id) ∧
      ∀ id', id' ≠ id → s₅.state.subs.rows.get? id' = s.state.subs.rows.get? id' := by
    refine ⟨⟨h₄.sub, ?_, halike.subscriptionId⟩, fun id' hne => ?_⟩
    · have hrow := hh₄.row
      rwa [halike.subscriptionId] at hrow
    · show s₄.state.subs.rows.get? id' = _
      rw [haround.rows id' hne, hs₃]
  have hrun : ∀ {res : Except PyError Nat},
      Evals reply i (catchUpAll cfg (rounds + 1) 0 h (models.map Topic.name)) s₃ res s₄ →
      Evals reply i (dispatchSubscription cfg (rounds + 1) h none) s res s₅ := by
    intro res hcatch
    refine hrunning.bind (Evals.call hauthorize ?_)
    rw [if_neg (by rw [hauth]; decide), htopics]
    refine Evals.call hacquire ?_
    have hattempt : Evals reply i (catchUpAll cfg (rounds + 1) 0 h (models.map Topic.name)).attempt s₃ (.ok res) s₄ :=
      Eval.attempt_iff.mpr ⟨res, rfl, hcatch⟩
    have hrelease : World.exec i (.release id) (reply (sendCount s₄.trace)) s₄.state = some ((), w₅) := rfl
    have hrest : Evals reply i (perform (.release id) >>= fun _ => orRaise res) s₄ res s₅ :=
      Evals.call hrelease (Eval.lift_iff.mpr ⟨rfl, rfl⟩)
    exact hattempt.bind hrest
  refine ⟨s₅, hfinal.1, hfinal.2, ?_⟩
  rcases hall with ⟨hclears, n, hcatch⟩ | ⟨hclears, e, hcatch⟩
  · exact .inl ⟨fun _ => hclears, n, hrun hcatch⟩
  · exact .inr ⟨⟨⟨hlease, hauth⟩, hclears⟩, e, hrun hcatch⟩

/-- What follows the new subscription raises exactly if an inline dispatch does. -/
theorem finishSubscribe_eval (reply : Nat → Choice) (i rounds : Nat)
    (hreply : ∀ m, ∃ result, (reply m).result = .ok result) {models : List Topic} (hwf : s.state.store.Wf)
    (hh : Held h s.state) (hactive : h.sub.status = .active) (hfresh : RetryIdsFresh s.state)
    (hlock : s.state.locks.get? h.sub.subscriptionId = none)
    (hfinds : ∀ t ∈ models, ∃ log, s.state.Finds t.name t log) (hnames : models.map Topic.name = h.sub.topics)
    (hnodup : h.sub.topics.Nodup)
    (hrounds : ∀ t ∈ models,
      (s.state.ahead t.name (s.state.subs.position h.sub.subscriptionId t.name)).length < rounds + 1) :
    let fails := cfg.deferredDispatch = false ∧ s.state.Dispatches h.sub ∧
      ¬ Clears cfg reply s.state h.sub.selector (s.state.subs.position h.sub.subscriptionId) (sendCount s.trace) models
    ∃ s', (∃ row, s'.state.subs.rows.get? h.sub.subscriptionId = some row) ∧
      (∀ id, id ≠ h.sub.subscriptionId → s'.state.subs.rows.get? id = s.state.subs.rows.get? id) ∧
      (¬ fails ∧ (∃ sub, sub.subscriptionId = h.sub.subscriptionId ∧
            Evals reply i (finishSubscribe cfg (rounds + 1) h) s (.ok sub) s') ∨
        fails ∧ ∃ e, Evals reply i (finishSubscribe cfg (rounds + 1) h) s (.error e) s') := by
  intro fails
  have hderef : ∀ s' : Snapshot cfg fuel, (∃ row, s'.state.subs.rows.get? h.sub.subscriptionId = some row ∧
      row.subscriptionId = h.sub.subscriptionId) → ∃ h', h'.sub.subscriptionId = h.sub.subscriptionId ∧
        ∀ c, World.exec i (.deref h) c s'.state = some (h', s'.state) := by
    rintro s' ⟨row, hrow, hid⟩
    refine ⟨s'.state.subs.deref h, ?_, fun _ => rfl⟩
    unfold SubscriptionStore.deref
    cases s'.state.subs.backend with
    | copies => rfl
    | live =>
      rw [hrow]
      exact hid
  cases hdeferred : cfg.deferredDispatch with
  | true =>
    obtain ⟨h', hid, hread⟩ := hderef s ⟨h.sub, hh.row, rfl⟩
    refine ⟨s.next i (.deref h) h' s.state, ⟨h.sub, hh.row⟩, fun _ _ => rfl, .inl ⟨fun hf => ?_, h'.sub, hid, ?_⟩⟩
    · have hinline := hf.1
      rw [hdeferred] at hinline
      cases hinline
    · unfold finishSubscribe
      rw [hdeferred]
      exact Evals.call (hread _) (.pure _ _)
  | false =>
    obtain ⟨s₁, hrow, hothers, hdispatch⟩ := dispatchSubscription_eval reply i rounds hreply hwf hh hactive hfresh hlock
      hfinds hnames hnodup hrounds
    obtain ⟨h', hid, hread⟩ := hderef s₁ hrow
    have hrow' : ∃ row, s₁.state.subs.rows.get? h.sub.subscriptionId = some row := hrow.imp fun _ hr => hr.1
    rcases hdispatch with ⟨hclears, n, hrun⟩ | ⟨hdispatches, e, hrun⟩
    · refine ⟨s₁.next i (.deref h) h' s₁.state, hrow', hothers,
        .inl ⟨fun hf => hf.2.2 (hclears hf.2.1), h'.sub, hid, ?_⟩⟩
      unfold finishSubscribe
      rw [hdeferred]
      have hdone : Evals reply i (dispatchSubscription cfg (rounds + 1) h none >>= fun _ => pure ()) s (.ok ()) s₁ :=
        hrun.bind (.pure _ _)
      exact hdone.bind (Evals.call (hread _) (.pure _ _))
    · refine ⟨s₁, hrow', hothers, .inr ⟨⟨hdeferred, hdispatches⟩, e, ?_⟩⟩
      unfold finishSubscribe
      rw [hdeferred]
      exact Eval.bind_error _ (Eval.bind_error _ hrun)

end

end A2AEvents
