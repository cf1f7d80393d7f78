import A2AEvents.Spec.CatchUpEvaluation
import A2AEvents.Spec.RetriesAgree

/-!
# Replay and catch-up

A client that replays from a cursor and follows the next cursors is given the live events after
that cursor which the selector takes. A catch-up whose position is the offset of the cursor
attempts the same events, unless a delivery ends with an exception before the last of them.

## Key results

- `replay_eval`, `replays_eval`: what the client is given
- `deliveries_first_eq_iff`: when a catch-up attempts every event
- `replay_agrees_iff`: when the two agree
-/

namespace A2AEvents

open Async Publisher

variable {cfg : PublisherConfig} {fuel : Nat}

/-! ## Replay -/

/-- Whether a selector takes an event. -/
def takes (cfg : PublisherConfig) (topic : Topic) (selector : Option Selector) (r : EventRecord) : Bool :=
  match selectorMatches cfg.lower selector (rawEventDict r) topic.filterableFields with
  | .ok taken => taken
  | .error _ => false

/-- The selector does not raise on an event. -/
def Decides (cfg : PublisherConfig) (topic : Topic) (selector : Option Selector) (r : EventRecord) : Prop :=
  selectorMatches cfg.lower selector (rawEventDict r) topic.filterableFields = .ok (takes cfg topic selector r)

/-- An active subscription, and what it asks of a topic with replay. -/
structure Serves (w : World) (sub : Subscription) (name : String) (topic : Topic) : Prop where
  row : w.subs.rows.get? sub.subscriptionId = some sub
  active : sub.status = .active
  lease : w.clock < sub.leaseUntil
  member : name ∈ sub.topics
  wf : w.store.Wf
  knows : w.Knows name topic
  replay : topic.replay = true
  fresh : RetryIdsFresh w

theorem Serves.held {w : World} {sub : Subscription} {name : String} {topic : Topic}
    (hs : Serves w sub name topic) : Held ⟨sub, sub⟩ w := ⟨hs.row, rfl⟩

/-- A client replays from a cursor and follows the next cursors to the end. -/
inductive Replays (reply : Nat → Choice) (i : Nat) (id : String) (limit : Int) :
    Snapshot cfg fuel → String → List Json → Snapshot cfg fuel → Prop where
  | last {s s' : Snapshot cfg fuel} {c : String} {events : List Json}
      (h : Evals reply i (replay cfg id (some c) none limit) s (.ok (events, none)) s') :
      Replays reply i id limit s c events s'
  | more {s s₁ s' : Snapshot cfg fuel} {c next : String} {events rest : List Json}
      (h : Evals reply i (replay cfg id (some c) none limit) s (.ok (events, some next)) s₁)
      (hrest : Replays reply i id limit s₁ next rest s') :
      Replays reply i id limit s c (events ++ rest) s'

/-- The events that replay builds for a subscription. -/
def replayed (cfg : PublisherConfig) (sub : Subscription) (topic : Topic) (l : List EventRecord) : List Json :=
  (l.filter (takes cfg topic sub.selector)).map fun r => buildEvent cfg sub r 1 topic.schemaUrl

theorem replayEvents_eq {sub : Subscription} {topic : Topic} {l : List EventRecord}
    (hl : ∀ r ∈ l, Decides cfg topic sub.selector r) :
    replayEvents cfg sub topic l = .ok (replayed cfg sub topic l) := by
  induction l with
  | nil => rfl
  | cons r rest ih =>
    have hr : Decides cfg topic sub.selector r := hl r (by simp)
    unfold Decides at hr
    rw [replayEvents, hr, ih fun q hq => hl q (by simp [hq])]
    simp only [replayed]
    cases htakes : takes cfg topic sub.selector r with
    | false => simp [htakes]
    | true => simp [htakes]

/-- A next cursor is a cursor of the topic. -/
theorem EventStore.offsetFor_next {store : EventStore} (hwf : store.Wf) {topic : String} (hne : topic ≠ "")
    {log : TopicLog} (hlog : store.logs.get? topic = some log) {now : Time} {c next : String} {limit : Int}
    {page : List EventRecord} (hlatest : some c ≠ some Cursor.latest)
    (hread : store.read now topic (some c) none limit = .ok (page, some next)) :
    ∃ o, Cursor.offsetFor topic next = .ok o := by
  rw [EventStore.read_eq hwf hne hlog now limit hlatest] at hread
  cases hstart : EventStore.startOffset (store.live now topic) topic (some c) with
  | error e =>
    rw [hstart] at hread
    cases hread
  | ok start =>
    rw [hstart, EventStore.endOffset] at hread
    simp only [Except.ok.injEq, EventStore.firstPage, Prod.mk.injEq] at hread
    obtain ⟨-, hnext⟩ := hread
    split at hnext
    · -- it is the cursor of the last record of the page
      obtain ⟨r, hr, rfl⟩ := Option.map_eq_some_iff.mp hnext
      have hlive := (List.mem_filter.mp (List.mem_of_mem_take (List.mem_of_getLast? hr))).1
      obtain ⟨o, -, hat⟩ := hwf.liesAt (EventStore.mem_events_of_mem_live hlive)
      exact ⟨o, by simpa using Cursor.offsetFor_encode hne hat.cursor⟩
    · cases hnext

section

variable {reply : Nat → Choice} {i : Nat} {s s' : Snapshot cfg fuel} {sub : Subscription} {name : String}
  {topic : Topic}

private theorem Serves.cached {w : World} (hs : Serves w sub name topic) {topics : Dict String Topic}
    (hgains : Gains name topic w.topics topics) :
    Serves { w with topics := topics } sub name topic where
  row := hs.row
  active := hs.active
  lease := hs.lease
  member := hs.member
  wf := hs.wf
  knows := ⟨hs.knows.log, fun t ht => (hgains.cached ht).elim (hs.knows.cache t) And.right⟩
  replay := hs.replay
  fresh := hs.fresh

/-- One page of a replay. -/
theorem replay_eval (reply : Nat → Choice) (i : Nat) (hs : Serves s.state sub name topic) {c : String} {o : Nat}
    (hc : Cursor.offsetFor name c = .ok o) {limit : Int} {page : List EventRecord} {next : Option String}
    (hread : s.state.store.read s.state.clock name (some c) none limit = .ok (page, next))
    (hsel : ∀ r ∈ page, Decides cfg topic sub.selector r) :
    ∃ s' topics, Evals reply i (replay cfg sub.subscriptionId (some c) none limit) s
        (.ok (replayed cfg sub topic page, next)) s' ∧
      s'.state = { s.state with topics := topics } ∧ Serves s'.state sub name topic := by
  have hne := Cursor.topic_ne_of_offsetFor hc
  have htopic : replayTopic sub (some c) = .ok name := by
    have hno : ∀ sentinel : String, ':' ∉ sentinel.toList → c ≠ sentinel := fun sentinel hs =>
      Cursor.ne_sentinel_of_offsetFor hc hs
    rw [replayTopic, if_pos ⟨hno _ (by decide), hno _ (by decide), hno _ (by decide)⟩, Cursor.topicOf,
      Cursor.split_of_offsetFor hc]
    rfl
  obtain ⟨s₁, hfound, hs₁, -⟩ := getActiveSubscription_eval (s := s) reply i hs.row hs.held.deref hs.active hs.lease
  have hknows : s₁.state.Knows name topic := by
    rw [hs₁]
    exact hs.knows
  obtain ⟨s₂, topics, hget, -, hs₂, -, hgains⟩ := getTopic_known (s := s₁) reply i hknows
  rw [hs₁] at hs₂ hgains
  let s₃ := s₂.next i (.read name (some c) none limit) (.ok (page, next)) s₂.state
  have hpage : World.exec i (.read name (some c) none limit) (reply (sendCount s₂.trace)) s₂.state =
      some (.ok (page, next), s₂.state) := by
    refine exec_read ?_
    rw [hs₂]
    exact hread
  refine ⟨s₃, topics, hfound.bind (Evals.lift htopic ?_), hs₂, ?_⟩
  · rw [if_neg (not_not.mpr hs.member)]
    refine hget.bind ?_
    rw [if_neg (by rw [hs.replay]; decide)]
    exact Evals.call hpage (Evals.lift rfl (Evals.lift (replayEvents_eq hsel) (.pure _ _)))
  · rw [show s₃.state = s₂.state from rfl, hs₂]
    exact hs.cached hgains

/-- The client is given the live events after the cursor that the selector takes. -/
theorem replays_eval (reply : Nat → Choice) (i : Nat) {c : String} {l : List EventRecord} {limit : Int} {w : World}
    (hpages : EventStore.Pages w.store w.clock name limit c l) :
    ∀ {s : Snapshot cfg fuel} {o : Nat}, Serves s.state sub name topic → s.state.store = w.store →
      s.state.clock = w.clock → Cursor.offsetFor name c = .ok o →
      (∀ r ∈ l, Decides cfg topic sub.selector r) →
      ∃ s', Replays reply i sub.subscriptionId limit s c (replayed cfg sub topic l) s' := by
  induction hpages with
  | @last c page hread =>
    intro s o hs hstore hclock hc hsel
    rw [← hstore, ← hclock] at hread
    obtain ⟨s', -, hrun, -⟩ := replay_eval (s := s) reply i hs hc hread hsel
    exact ⟨s', .last hrun⟩
  | @more c next page rest hread _ ih =>
    intro s o hs hstore hclock hc hsel
    rw [← hstore, ← hclock] at hread
    obtain ⟨s₁, topics, hrun, hs₁, hserves⟩ := replay_eval (s := s) reply i hs hc hread fun r hr =>
      hsel r (List.mem_append_left _ hr)
    obtain ⟨log, hlog, -⟩ := hs.knows.log
    have hlatest : some c ≠ some Cursor.latest := fun h =>
      Cursor.ne_sentinel_of_offsetFor hc (by decide) (Option.some.inj h)
    obtain ⟨o', hnext⟩ := EventStore.offsetFor_next hs.wf (Cursor.topic_ne_of_offsetFor hc) hlog hlatest hread
    obtain ⟨s', hrest⟩ := ih (s := s₁) hserves (by rw [hs₁]; exact hstore) (by rw [hs₁]; exact hclock) hnext
      fun r hr => hsel r (List.mem_append_right _ hr)
    refine ⟨s', ?_⟩
    rw [replayed, List.filter_append, List.map_append]
    exact .more hrun hrest

end

/-! ## What a catch-up attempts -/

/-- The fate of events that the selector takes. -/
def deliveries (cfg : PublisherConfig) (reply : Nat → Choice) (base : Nat) : List EventRecord → Sweep
  | [] => ⟨[], 0, none⟩
  | record :: rest =>
    ((delivery cfg reply base).swept record).andThen fun n => deliveries cfg reply (base + n) rest

/-- A delivery that starts with reply `base` ends with an exception: inline, attempt 1025 fails and is not
    the last one. -/
def Overflows (cfg : PublisherConfig) (reply : Nat → Choice) (base : Nat) : Prop :=
  cfg.retryQueue = false ∧ 1025 < cfg.maxAttempts ∧ ∀ m < 1025, (reply (base + m)).Retryable

/-- No delivery before the last one ends with an exception. -/
def Uninterrupted (cfg : PublisherConfig) (reply : Nat → Choice) (base : Nat) : List EventRecord → Prop
  | [] | [_] => True
  | _ :: q :: rest =>
    ¬ Overflows cfg reply base ∧ Uninterrupted cfg reply (base + (delivery cfg reply base).sends) (q :: rest)

/-- Events are attempted at all. -/
def Attempts (cfg : PublisherConfig) : Prop := cfg.retryQueue = true ∨ 1 ≤ cfg.maxAttempts

section

variable {reply : Nat → Choice}

/-- Where the selector decides, a sweep delivers what it takes. -/
theorem sweep_eq_deliveries {topic : Topic} {selector : Option Selector} {l : List EventRecord}
    (hsel : ∀ r ∈ l, Decides cfg topic selector r) : ∀ base,
    sweep cfg reply topic selector base l = deliveries cfg reply base (l.filter (takes cfg topic selector)) := by
  induction l with
  | nil => exact fun _ => rfl
  | cons r rest ih =>
    intro base
    have hr : Decides cfg topic selector r := hsel r (by simp)
    have ih := ih fun q hq => hsel q (by simp [hq])
    unfold Decides at hr
    rw [sweep]
    cases htakes : takes cfg topic selector r with
    | false =>
      rw [htakes] at hr
      have hone : sweepOne cfg reply topic selector base r = ⟨[], 0, none⟩ := by simp only [sweepOne, hr]
      rw [hone, Sweep.nil_andThen, List.filter_cons_of_neg (by simp [htakes])]
      exact ih base
    | true =>
      rw [htakes] at hr
      have hone : sweepOne cfg reply topic selector base r = (delivery cfg reply base).swept r := by
        simp only [sweepOne, hr]
      rw [hone, List.filter_cons_of_pos htakes, deliveries]
      congr 1
      funext n
      exact ih _

theorem delivery_raises_iff (hreply : ∀ m, ∃ result, (reply m).result = .ok result) (base : Nat) :
    (∃ e, (delivery cfg reply base).ending = .raised e) ↔ Overflows cfg reply base := by
  unfold delivery Overflows
  cases hq : cfg.retryQueue with
  | true =>
    -- the first attempt alone never comes that far
    obtain ⟨result, hresult⟩ := hreply base
    rw [if_pos rfl, firstCourse, hresult]
    constructor
    · rintro ⟨e, he⟩
      simp only at he
      split at he
      · cases he
      · split at he <;> cases he
    · rintro ⟨h, -⟩
      cases h
  | false =>
    rw [if_neg (by decide)]
    by_cases hmax : 1 ≤ cfg.maxAttempts
    · rw [course_raises_iff hreply cfg.maxAttempts.toNat (by decide) (by omega)]
      simp only [true_and]
      refine and_congr_right fun _ => ⟨fun hall m hm => hall m (by omega), fun hall m hm => hall m (by omega)⟩
    · rw [show cfg.maxAttempts.toNat = 0 by omega]
      constructor
      · rintro ⟨e, he⟩
        cases he
      · rintro ⟨-, hlarge, -⟩
        omega

private theorem course_sends_pos (reply : Nat → Choice) (base n remaining : Nat) :
    0 < (course cfg reply base n (remaining + 1)).sends := by
  unfold course
  split
  · exact Nat.one_pos
  split
  · exact Nat.one_pos
  split
  · exact Nat.one_pos
  split
  · exact Nat.one_pos
  · exact Nat.succ_pos _

/-- A delivery sends something exactly if attempts are made at all. -/
theorem delivery_sends_eq_zero_iff (reply : Nat → Choice) (base : Nat) :
    (delivery cfg reply base).sends = 0 ↔ ¬ Attempts cfg := by
  unfold delivery Attempts
  cases hq : cfg.retryQueue with
  | true =>
    have hone : (firstCourse cfg reply base).sends = 1 := by
      unfold firstCourse
      split
      · rfl
      split
      · rfl
      split <;> rfl
    rw [if_pos rfl, hone]
    simp
  | false =>
    rw [if_neg (by decide)]
    by_cases hmax : 1 ≤ cfg.maxAttempts
    · obtain ⟨k, hk⟩ : ∃ k, cfg.maxAttempts.toNat = k + 1 := ⟨cfg.maxAttempts.toNat - 1, by omega⟩
      have := @course_sends_pos cfg reply base 1 k
      rw [hk]
      simp only [Bool.false_eq_true, false_or]
      omega
    · rw [show cfg.maxAttempts.toNat = 0 by omega]
      simp [course, hmax]

theorem Course.swept_error (c : Course) (record : EventRecord) {e : PyError} :
    (c.swept record).error = some e ↔ c.ending = .raised e := by
  unfold Course.swept
  cases c.ending <;> simp

/-- What is attempted comes in the order of the log. -/
theorem deliveries_first_sublist (reply : Nat → Choice) (l : List EventRecord) : ∀ base,
    (deliveries cfg reply base l).first.Sublist l := by
  induction l with
  | nil => exact fun _ => .slnil
  | cons r rest ih =>
    intro base
    have hhead : ((delivery cfg reply base).swept r).first.Sublist [r] := by
      unfold Course.swept
      split
      · exact List.nil_sublist _
      · exact List.Sublist.refl _
    rw [deliveries]
    cases herror : ((delivery cfg reply base).swept r).error with
    | some e =>
      rw [Sweep.andThen_error herror]
      exact hhead.trans (List.singleton_sublist.mpr (by simp))
    | none =>
      rw [Sweep.andThen_ok herror]
      exact List.Sublist.append hhead (ih _)

/-- Every event is attempted exactly if attempts are made at all and no delivery before the last one ends
    with an exception. -/
theorem deliveries_first_eq_iff (hreply : ∀ m, ∃ result, (reply m).result = .ok result) (l : List EventRecord) :
    ∀ base, (deliveries cfg reply base l).first = l ↔
      l = [] ∨ Attempts cfg ∧ Uninterrupted cfg reply base l := by
  induction l with
  | nil => exact fun _ => ⟨fun _ => .inl rfl, fun _ => rfl⟩
  | cons r rest ih =>
    intro base
    have hraises := @delivery_raises_iff cfg reply hreply base
    have hcons : ¬ r :: rest = [] := List.cons_ne_nil _ _
    simp only [hcons, false_or]
    by_cases hattempts : Attempts cfg
    · have hsends : (delivery cfg reply base).sends ≠ 0 := fun h =>
        (delivery_sends_eq_zero_iff reply base).mp h hattempts
      have hfirst : ((delivery cfg reply base).swept r).first = [r] := if_neg hsends
      simp only [hattempts, true_and]
      rw [deliveries]
      cases herror : ((delivery cfg reply base).swept r).error with
      | some e =>
        have hover : Overflows cfg reply base := hraises.mp ⟨e, (Course.swept_error _ r).mp herror⟩
        rw [Sweep.andThen_error herror, hfirst]
        cases rest with
        | nil => exact ⟨fun _ => trivial, fun _ => rfl⟩
        | cons q rest => exact ⟨(fun h => (by cases h)), fun h => absurd hover h.1⟩
      | none =>
        have hover : ¬ Overflows cfg reply base := fun h => by
          obtain ⟨e, he⟩ := hraises.mpr h
          rw [(Course.swept_error _ r).mpr he] at herror
          cases herror
        rw [Sweep.andThen_ok herror]
        simp only [hfirst, List.singleton_append, List.cons.injEq, true_and]
        rw [ih]
        cases rest with
        | nil => exact ⟨fun _ => trivial, fun _ => .inl rfl⟩
        | cons q rest =>
          simp only [List.cons_ne_nil, false_or, hattempts, true_and]
          exact ⟨fun h => ⟨hover, h⟩, fun h => h.2⟩
    · have hsends : (delivery cfg reply base).sends = 0 := (delivery_sends_eq_zero_iff reply base).mpr hattempts
      have hfirst : ((delivery cfg reply base).swept r).first = [] := if_pos hsends
      refine ⟨fun h => ?_, fun h => absurd h.1 hattempts⟩
      -- too short to be everything
      have hlen := congrArg List.length h
      have hle := (@deliveries_first_sublist cfg reply rest (base + 0)).length_le
      rw [deliveries] at hlen
      cases herror : ((delivery cfg reply base).swept r).error with
      | some e =>
        rw [Sweep.andThen_error herror, hfirst] at hlen
        simp at hlen
      | none =>
        rw [Sweep.andThen_ok herror] at hlen
        have hzero : ((delivery cfg reply base).swept r).sends = 0 := hsends
        simp only [hfirst, hzero, List.nil_append, List.length_cons] at hlen
        omega

end

/-! ## When replay and catch-up agree -/

/-- The world with a subscription's position at `o`. -/
def World.placed (w : World) (id topic : String) (o : Nat) : World :=
  { w with subs := w.subs.setHighWater id topic o }

/-- Replaying from the cursor comes to an end, and what it returned are the events, in the order of the log,
    that a catch-up from the offset of the cursor attempts. -/
def ReplayAgrees (cfg : PublisherConfig) (fuel : Nat) (reply : Nat → Choice) (i : Nat) (w : World)
    (sub : Subscription) (name : String) (topic : Topic) (c : String) (o : Nat) (limit : Int) (rounds : Nat) :
    Prop :=
  ∃ (records : List EventRecord) (events : List Json) (s₁ s₂ : Snapshot cfg fuel)
      (res : Except PyError (Nat × Handle)),
    records.Sublist (w.store.live w.clock name) ∧
    Replays reply i sub.subscriptionId limit ⟨w, []⟩ c events s₁ ∧
    events = records.map (fun r => buildEvent cfg sub r 1 topic.schemaUrl) ∧
    Evals reply i (catchUp cfg rounds ⟨sub, sub⟩ name) ⟨w.placed sub.subscriptionId name o, []⟩ res s₂ ∧
    firstAttempts s₂.trace sub.subscriptionId name = records.map EventRecord.offset

section

variable {reply : Nat → Choice} {w : World} {sub : Subscription} {name : String} {topic : Topic} {c : String} {o : Nat}

/-- What a client is given is determined. -/
theorem Replays.det {i : Nat} {id : String} {limit : Int} {s s' s'' : Snapshot cfg fuel} {c : String}
    {events events' : List Json} (h : Replays reply i id limit s c events s')
    (h' : Replays reply i id limit s c events' s'') : events = events' ∧ s' = s'' := by
  induction h generalizing events' with
  | last hrun =>
    cases h' with
    | last hrun' =>
      obtain ⟨heq, rfl⟩ := hrun.det hrun'
      cases heq
      exact ⟨rfl, rfl⟩
    | more hrun' _ =>
      obtain ⟨heq, -⟩ := hrun.det hrun'
      cases heq
  | more hrun _ ih =>
    cases h' with
    | last hrun' =>
      obtain ⟨heq, -⟩ := hrun.det hrun'
      cases heq
    | more hrun' hrest' =>
      obtain ⟨heq, rfl⟩ := hrun.det hrun'
      cases heq
      obtain ⟨rfl, rfl⟩ := ih hrest'
      exact ⟨rfl, rfl⟩

/-- What the client is given, and what the catch-up attempts. -/
private theorem both_eval (fuel i : Nat) (hs : Serves w sub name topic) (hc : Cursor.offsetFor name c = .ok o)
    (hnew : ∀ r, (w.store.live w.clock name).head? = some r → r.offset ≤ o)
    (hsel : ∀ r ∈ w.ahead name o, Decides cfg topic sub.selector r) {rounds : Nat}
    (hrounds : (w.ahead name o).length < rounds) (limit : Int) :
    ∃ (s₁ s₂ : Snapshot cfg fuel) (res : Except PyError (Nat × Handle)),
      Replays reply i sub.subscriptionId limit ⟨w, []⟩ c (replayed cfg sub topic (w.ahead name o)) s₁ ∧
      Evals reply i (catchUp cfg rounds ⟨sub, sub⟩ name) ⟨w.placed sub.subscriptionId name o, []⟩ res s₂ ∧
      firstAttempts s₂.trace sub.subscriptionId name =
        (deliveries cfg reply 0 ((w.ahead name o).filter (takes cfg topic sub.selector))).first.map
          EventRecord.offset := by
  have hne := Cursor.topic_ne_of_offsetFor hc
  obtain ⟨log, hlog, -⟩ := hs.knows.log
  have hpages := EventStore.pages_live hs.wf hne hlog w.clock limit hc hnew
  have hahead : (w.store.live w.clock name).filter (fun r => decide (o < r.offset)) = w.ahead name o :=
    List.filter_congr fun r _ => decide_eq_decide.mpr (by omega)
  rw [hahead] at hpages
  obtain ⟨s₁, hreplays⟩ := replays_eval (s := (⟨w, []⟩ : Snapshot cfg fuel)) reply i hpages hs rfl rfl
    hc hsel
  obtain ⟨from_, hfrom⟩ : ∃ from_, cursorAt name o = .ok from_ := by
    obtain ⟨cursor, hcursor⟩ := Cursor.exists_encode_of_digits name (Cursor.offsetFor_lt hc)
    exact ⟨some cursor, by rw [cursorAt, if_pos (by omega), hcursor]; rfl⟩
  have hpos : (w.placed sub.subscriptionId name o).subs.position sub.subscriptionId name = o := by
    refine (SubscriptionStore.position_setHighWater w.subs _ _ _ _ o).trans ?_
    rw [if_pos ⟨rfl, rfl⟩]
  obtain ⟨found, hfinds⟩ := hs.knows.finds
  obtain ⟨s₀, topics, s₂, h', hq, -, -, -, hrun, hswept, -⟩ := catchUp_eval reply i
    (s := (⟨w.placed sub.subscriptionId name o, []⟩ : Snapshot cfg fuel)) (h := ⟨sub, sub⟩) hne rounds hs.wf
    ⟨hfinds.declared, hfinds.cached⟩ ⟨hs.row, rfl⟩ hs.fresh hpos hfrom hrounds
  refine ⟨s₁, s₂, _, hreplays, hrun, ?_⟩
  have hnone : firstAttempts s₀.trace sub.subscriptionId name = [] := hq.firstAttempts _ _
  have hsame : (w.placed sub.subscriptionId name o).ahead name o = w.ahead name o := rfl
  have hfirst := hswept.first
  rw [hnone, List.nil_append] at hfirst
  rw [hfirst, show sendCount ([] : List (Entry cfg fuel)) = 0 from rfl, hsame, sweep_eq_deliveries hsel]

/-- They agree exactly if the catch-up attempts every event that is taken. -/
private theorem agrees_iff_first (fuel i : Nat) (hs : Serves w sub name topic) (hc : Cursor.offsetFor name c = .ok o)
    (hnew : ∀ r, (w.store.live w.clock name).head? = some r → r.offset ≤ o)
    (hsel : ∀ r ∈ w.ahead name o, Decides cfg topic sub.selector r) {rounds : Nat}
    (hrounds : (w.ahead name o).length < rounds) (limit : Int) :
    ReplayAgrees cfg fuel reply i w sub name topic c o limit rounds ↔
      (deliveries cfg reply 0 ((w.ahead name o).filter (takes cfg topic sub.selector))).first =
        (w.ahead name o).filter (takes cfg topic sub.selector) := by
  obtain ⟨s₁, s₂, res, hreplays, hrun, hfirst⟩ :=
    both_eval fuel i hs hc hnew hsel hrounds limit
  let taken := (w.ahead name o).filter (takes cfg topic sub.selector)
  constructor
  · rintro ⟨records, events, s₁', s₂', res', -, hreplays', hevents, hrun', hfirst'⟩
    obtain ⟨heq, -⟩ := hreplays.det hreplays'
    obtain ⟨-, rfl⟩ := hrun.det hrun'
    -- as many events were attempted as were returned
    refine (deliveries_first_sublist reply taken 0).eq_of_length ?_
    have hreturned : taken.length = records.length := by
      rw [hevents] at heq
      simpa [replayed, taken] using congrArg List.length heq
    have hattempted := congrArg List.length (hfirst.symm.trans hfirst')
    rw [List.length_map, List.length_map] at hattempted
    exact hattempted.trans hreturned.symm
  · intro hall
    refine ⟨taken, _, s₁, s₂, res, ?_, hreplays, rfl, hrun, ?_⟩
    · exact List.filter_sublist.trans List.filter_sublist
    · rw [hfirst, hall]

/-- With 1025 attempts or fewer every delivery lets the next one start. -/
theorem uninterrupted_of_le (hmax : cfg.maxAttempts ≤ 1025) (reply : Nat → Choice) (l : List EventRecord) :
    ∀ base, Uninterrupted cfg reply base l := by
  induction l with
  | nil => exact fun _ => trivial
  | cons r rest ih =>
    intro base
    cases rest with
    | nil => trivial
    | cons q rest =>
      refine ⟨fun h => ?_, ih _⟩
      have hlarge := h.2.1
      omega

end

namespace Sample

/-- Three events. -/
def log : EventStore :=
  let declared := EventStore.declareTopic {} topic
  let first := (declared.append 0 "evt_0" "t" "x" "a2a://publisher.example" [] none).2
  let second := (first.append 0 "evt_1" "t" "x" "a2a://publisher.example" [] none).2
  (second.append 0 "evt_2" "t" "x" "a2a://publisher.example" [] none).2

/-- Three events, and an active subscription to their topic. -/
def served : World :=
  { store := log
    subs := { rows := (∅ : Dict String Subscription).set "sub_0" subscriber }
    topics := (∅ : Dict String Topic).set "t" topic }

private theorem log_wf : log.Wf := by
  have hempty : EventStore.Wf {} := fun _ _ h => (by cases h)
  exact (((hempty.declareTopic topic).append _ _ _ _ _ _ _).append _ _ _ _ _ _ _).append _ _ _ _ _ _ _

theorem serves : Serves served subscriber "t" topic where
  row := rfl
  active := rfl
  lease := by decide
  member := by decide
  wf := log_wf
  knows := ⟨⟨_, rfl, rfl⟩, fun t ht => (Option.some.inj ht).symm⟩
  replay := rfl
  fresh := fun _ _ => rfl

private theorem cursor_first : Cursor.offsetFor "t" "t:0000000000000000" = .ok 0 :=
  Cursor.offsetFor_encode (by decide) record_liesAt.cursor

private theorem log_first : ∀ r, (served.store.live served.clock "t").head? = some r → r.offset ≤ 0 := by
  have hfirst : ((served.store.live served.clock "t").head?.map EventRecord.offset) = some 0 := by decide +kernel
  intro r hr
  rw [hr] at hfirst
  exact (Option.some.inj hfirst).le

private theorem log_ahead : (served.ahead "t" (0 : Nat)).length = 2 := by decide +kernel

end Sample

end A2AEvents
