import A2AEvents.ForStd.Recollection
import A2AEvents.Spec.CutoverCorrect

/-!
# Recovery after crashes

The dispatch positions are in the store, so a pass of the dispatch worker can take up what an earlier
process left behind. A pass that returned has listed the subscriptions and waited for a dispatch of
each, and a dispatch does not return before its subscription has been taken past all that was in the
log when it began. Events may be sent twice on the way, but none is lost: the outcome of every event
that the pass went past is on record.

## Key results

- `Told.of_crashing_run`: a run with crashes, told to its end
- `Told.covered_by_pass`: a pass covers what was there when it began
- `recovers_of_run`: after a pass every earlier event has its outcome, whatever crashed before
-/

namespace A2AEvents

open Async Publisher

variable {cfg : PublisherConfig} {fuel : Nat}

/-- A pass that returned has listed the subscriptions and waited for a dispatch of each that has topics. -/
theorem dispatchPending_returns {l : List (Move sig)} {v : Val} (h : (code cfg fuel .dispatchPending).Returns l v) :
    ∃ hs ids vs, l = [.op .listAll hs,
      .fork ((hs.filter fun h => !h.sub.topics.isEmpty).map fun h => .dispatchSubscription h none) ids,
      .join ids (.ok vs)] := by
  obtain ⟨l₁, n, l₂, rfl, hpass, hval⟩ := Prog.returns_bind.mp h
  obtain ⟨rfl, -⟩ := Prog.returns_pure.mp hval
  obtain ⟨hs, l₃, rfl, hlisted⟩ := Prog.returns_call_bind.mp hpass
  obtain ⟨l₄, vs, l₅, rfl, hgather, hsum⟩ := Prog.returns_bind.mp hlisted
  obtain ⟨rfl, -⟩ := Prog.returns_pure.mp hsum
  obtain ⟨ids, l₆, rfl, hforked⟩ := Prog.returns_fork.mp hgather
  obtain ⟨joined, l₇, rfl, hjoined⟩ := Prog.returns_join.mp hforked
  obtain ⟨rfl, rfl⟩ := Prog.returns_lift.mp hjoined
  exact ⟨hs, ids, vs, rfl⟩

section Told

variable {R : Regime} {c m : Run.Config cfg fuel} {ds : List (Deed (sem cfg fuel))}

/-- A run with crashes, told to its end: it is the memory of the pool that is told. -/
theorem Told.of_crashing_run {ok : Run.Config cfg fuel → Action (sem cfg fuel).traced → Prop} {clock : Time}
    {authorizer : Option AllowlistAuthorizer} (h : Peaceful R ok) (hfit : R.Fits cfg)
    (hc : Config.Run ok (initial cfg fuel .live clock authorizer) c) : ∃ m ds, Recalls c m ∧ Told R m ds := by
  obtain ⟨m, ds, hrecalls, hchronicle⟩ := (Recalls.refl (initial cfg fuel .live clock authorizer)).run
    (Chronicle.initial rfl rfl) hc
  obtain ⟨hnow, later, htrace, hfound⟩ := h.worlds hfit (.refl _) hc
  have hpool := (h.run_pool hfit (good_initial fun _ => rfl) (fun _ ht => (by cases ht)) hc).2
  refine ⟨m, ds, hrecalls, hchronicle, ?_, ?_, ?_⟩
  · rw [hrecalls.state]
    exact hnow
  · intro before e after hsplit
    rw [hrecalls.state] at hsplit ⊢
    have hlater : later = before ++ e :: after := htrace.symm.trans hsplit
    exact (hfound before e after hlater).1
  · -- the memory has the jobs of the pool
    intro t' ht'
    obtain ⟨i, hi⟩ := List.mem_iff_getElem?.mp ht'
    have hlt : i < c.tasks.length := by
      rw [← hrecalls.length]
      exact (List.getElem?_eq_some_iff.mp hi).1
    have hget := List.getElem?_eq_getElem hlt
    rw [(hrecalls.tasks i _ t' hget hi).job]
    exact hpool _ (List.mem_of_getElem? hget)

variable {past : List (Entry cfg fuel)} {p : Subscription × Dict String Int} {i : Nat} {topic : String}
  {record : EventRecord} {o : Nat}

/-- A list of the subscriptions has those that were added. -/
theorem Told.listed (h : Told R c ds) {before after : List (Entry cfg fuel)} {hs : List Handle} {w : World}
    (htrace : c.state.trace = before ++ ⟨i, .listAll, hs, w⟩ :: after) (hp : p ∈ added before) :
    ∃ row, row.Alike p.1 ∧ (⟨row, row⟩ : Handle) ∈ hs := by
  have hv := h.found before _ after htrace
  obtain ⟨row, hrow, halike⟩ := hv.inv.rows.added p hp
  obtain ⟨ch, w', hex⟩ := h.now.written.performed _ (by rw [htrace]; exact List.mem_append_right _ (.head _))
  simp only [World.exec, Option.some.injEq, Prod.mk.injEq] at hex
  have hlive : w.subs.backend = .live := hv.live
  refine ⟨row, halike, ?_⟩
  rw [← hex.1, SubscriptionStore.listAll, hlive]
  exact List.mem_map.mpr ⟨row, Dict.mem_values_iff.mpr ⟨_, hrow⟩, rfl⟩

/-- A dispatch that was forked and joined has come to an end since. -/
theorem Told.dispatched (h : Told R c ds) {ds₁ ds₂ : List (Deed (sem cfg fuel))} {js : List Job} {ids : List Nat}
    {vs : List Val} (hds : ds = ds₁ ++ .fork i js ids :: ds₂) (hjoin : .join i ids (.ok vs) ∈ ds₂) {hd : Handle}
    {topics : Option (List String)} (hjob : .dispatchSubscription hd topics ∈ js) :
    ∃ n, Answers.Dispatched (c.state.receivedSince (entriesOf ds₁) n) (.dispatchSubscription hd topics) cfg hd topics := by
  have hchronicle := h.chronicle
  rw [hds] at hchronicle
  obtain ⟨n, v, hreturns⟩ := hchronicle.returned_of_forked hjoin hjob
  have hsourced : Sourced cfg (.dispatchSubscription hd topics) (c.state.receivedSince (entriesOf ds₁) n)
      (code cfg fuel (.dispatchSubscription hd topics)) fun _ =>
        Answers.Dispatched _ (.dispatchSubscription hd topics) cfg hd topics :=
    .bind (dispatchSubscription_sourced (Answers.Handed.held (.given rfl)) _) fun _ hd => .pure hd
  exact ⟨n, hsourced.returns hreturns fun o r hmem => hchronicle.received hmem⟩

/-- A pass that has returned covers the events and subscriptions that were there when it began. -/
theorem Told.covered_by_pass (h : Told R c ds) {v : Val} (ht : c.tasks[i]? = some ⟨.dispatchPending, .pure v⟩)
    {later : List (Entry cfg fuel)} (htrace : c.state.trace = past ++ later) (hnone : ∀ e ∈ past, e.task ≠ i)
    (hp : p ∈ added past) (hrecord : record ∈ appended past topic) (htopic : topic ∈ p.1.topics) :
    ∃ before n hd, Covered c p topic record before n (.dispatchSubscription hd none) hd none := by
  have hreturns : (code cfg fuel .dispatchPending).Returns (movesOf i ds) v := h.chronicle.takes i _ ht
  obtain ⟨hs, ids, vs, hmoves⟩ := dispatchPending_returns hreturns
  obtain ⟨ds₁, w, ds₂, hds, hgather⟩ := movesOf_eq_op hmoves
  obtain ⟨ds₃, ds₄, rfl, hjoined⟩ := movesOf_eq_fork hgather
  obtain ⟨ds₅, ds₆, rfl, -⟩ := movesOf_eq_join hjoined
  -- the list was read after the past
  have hlist : c.state.trace = entriesOf ds₁ ++ (⟨i, .listAll, hs, w⟩ : Entry cfg fuel) ::
      entriesOf (ds₃ ++ .fork i ((hs.filter fun h => !h.sub.topics.isEmpty).map fun h => .dispatchSubscription h none) ids ::
        (ds₅ ++ .join i ids (.ok vs) :: ds₆)) := by
    rw [← h.chronicle.trace, hds, entriesOf_append]
    rfl
  obtain ⟨mid, hmid⟩ : ∃ mid, entriesOf ds₁ = past ++ mid := by
    rcases List.append_eq_append_iff.mp (htrace.symm.trans hlist) with ⟨mid, hmid, -⟩ | ⟨mid, hpast, hrest⟩
    · exact ⟨mid, hmid⟩
    · cases mid with
      | nil => exact ⟨[], by rw [hpast, List.append_nil, List.append_nil]⟩
      | cons e mid =>
        -- else the call would be one of the past
        rw [List.cons_append, List.cons.injEq] at hrest
        exact absurd rfl (hnone ⟨i, .listAll, hs, w⟩ (by rw [hpast, hrest.1]; exact List.mem_append_right _ (.head _)))
  have hp' : p ∈ added (entriesOf ds₁) := by
    rw [hmid]
    exact added_mono hp
  have hrecord' : record ∈ appended (entriesOf ds₁) topic := by
    rw [hmid]
    exact appended_mono hrecord
  obtain ⟨row, halike, hlisted⟩ := h.listed hlist hp'
  have hjob : .dispatchSubscription ⟨row, row⟩ none ∈
      (hs.filter fun h => !h.sub.topics.isEmpty).map fun h => Job.dispatchSubscription h none := by
    refine List.mem_map.mpr ⟨⟨row, row⟩, List.mem_filter.mpr ⟨hlisted, ?_⟩, rfl⟩
    rw [halike.topics, List.isEmpty_eq_false_iff_exists_mem.mpr ⟨topic, htopic⟩]
    rfl
  have hfork : ds = (ds₁ ++ .call ⟨i, .listAll, hs, w⟩ :: ds₃) ++
      .fork i ((hs.filter fun h => !h.sub.topics.isEmpty).map fun h => .dispatchSubscription h none) ids ::
        (ds₅ ++ .join i ids (.ok vs) :: ds₆) := by
    rw [hds, List.append_assoc]
    rfl
  obtain ⟨n, hdispatched⟩ := h.dispatched hfork (List.mem_append_right _ (.head _)) hjob
  refine ⟨entriesOf (ds₁ ++ .call ⟨i, .listAll, hs, w⟩ :: ds₃), n, ⟨row, row⟩, ?_, ?_, halike, htopic, hdispatched⟩
  · rw [entriesOf_append]
    exact added_mono hp'
  · rw [entriesOf_append]
    exact appended_mono hrecord'

/-- No page passed by an event that is in retention. -/
theorem Told.not_passed (h : Told R c ds) (hrecord : record ∈ appended c.state.trace topic)
    (hat : record.LiesAt topic o) (hretained : Retained c.state topic record) {id : String} :
    ¬ ∃ e ∈ c.state.trace, Entry.Passes id topic record o e := by
  rintro ⟨⟨k, op, r, w⟩, he, hpasses⟩
  obtain ⟨before, after, htrace⟩ := List.append_of_mem he
  have hv := h.found before _ after htrace
  cases op with
  | read name from_ to_ limit =>
    cases to_ with
    | some to_ => cases hpasses
    | none =>
      obtain ⟨rfl, -, -, hlt, hnotlive⟩ := hpasses
      rcases hv.grows.appended name record hrecord with hearlier | ⟨o', ho', hat'⟩
      · exact absurd (hv.live_of_retained hearlier hretained) hnotlive
      · -- it had a number below the count by then
        rw [hat.unique hat'] at hlt
        exact absurd hlt (Nat.not_lt.mpr ho')
  | _ => cases hpasses

end Told

/-! ## Runs -/

/-- What a recovery needs of the other calls. -/
def recoveryRegime : Regime := { monotone := true, accounted := true, gated := true }

/-- Any interleaving of calls other than renewals, explicit acks and retries, with crashes anywhere and a transport
    that may fail. -/
def unrenewed (c : Run.Config cfg fuel) : Action (sem cfg fuel).traced → Bool
  | .start j => callable j c.state.state && !recoveryRegime.exclusive j
  | _ => true

theorem unrenewed_peaceful : @Peaceful cfg fuel recoveryRegime fun c act => unrenewed c act = true where
  start := fun h => by simpa [unrenewed] using h
  task := by
    intro c i ch _ t _ hj o _ _
    -- retries are exclusive
    have hretry : t.job.isRetry = false := by
      cases hjob : t.job <;> rw [hjob] at hj <;> first | rfl | cases hj
    unfold Admissible
    split
    · refine ⟨(fun ho => (by cases ho)), fun _ hr => ?_, fun hk => (by cases hk)⟩
      rw [hretry] at hr
      cases hr
    · refine fun row _ => ⟨fun _ hr => ?_, fun hb => (by cases hb)⟩
      rw [hretry] at hr
      cases hr
    · exact fun hb => (by cases hb)
    · trivial
  crash := fun _ => rfl

/-- A run of calls that may crash. -/
abbrev Unrenewed (a b : Run.Config cfg fuel) : Prop := Config.Run (fun c act => unrenewed c act = true) a b

/-- The position is not before the event. Either the selector refuses it, or the event was sent and its outcome is
    on record. -/
structure Settled (c : Run.Config cfg fuel) (sub : Subscription) (topic : String) (record : EventRecord) (o : Nat) :
    Prop where
  passed : (o : Int) ≤ c.state.state.subs.position sub.subscriptionId topic
  outcome : (∃ log, c.state.state.store.logs.get? topic = some log ∧
      selectorMatches cfg.lower sub.selector (rawEventDict record) log.topic.filterableFields = .ok false) ∨
    ∃ a ∈ c.state.state.subs.attempts, a.subscriptionId = sub.subscriptionId ∧ a.eventId = record.eventId ∧
      a.cursor = record.cursor ∧ (a.status = .delivered ∨ a.status = .deadLetter)

/-- When a pass of the dispatch worker has returned, every event that was appended before the pass began is settled
    for every subscription that was added before and is served, whatever crashed on the way. -/
theorem recovers_of_run {clock : Time} {authorizer : Option AllowlistAuthorizer} {a c : Run.Config cfg fuel}
    (hqueue : cfg.retryQueue = false) (hattempts : 1 ≤ cfg.maxAttempts)
    (ha : Unrenewed (initial cfg fuel .live clock authorizer) a) (hac : Unrenewed a c)
    {i : Nat} (hi : a.tasks.length ≤ i) {v : Val} (ht : c.tasks[i]? = some ⟨.dispatchPending, .pure v⟩)
    {p : Subscription × Dict String Int} (hp : p ∈ added a.state.trace) (hserved : Served c p.1.subscriptionId)
    {topic : String} (htopic : topic ∈ p.1.topics) {record : EventRecord}
    (hrecord : record ∈ appended a.state.trace topic) (hretained : Retained c.state topic record) {o : Nat}
    (hat : record.LiesAt topic o) (hstart : p.2.getD topic (-1) < o) : Settled c p.1 topic record o := by
  have hfit : recoveryRegime.Fits cfg := ⟨(fun h => (by cases h)), fun _ => .inl ⟨hqueue, hattempts⟩⟩
  obtain ⟨mₐ, dsₐ, hrecallsₐ, htoldₐ⟩ := Told.of_crashing_run unrenewed_peaceful hfit ha
  obtain ⟨m, ds, hrecalls, htold⟩ := Told.of_crashing_run unrenewed_peaceful hfit (ha.trans hac)
  obtain ⟨-, later, htrace, -⟩ := unrenewed_peaceful.worlds hfit ha hac
  -- the pass had not begun
  have hnone : ∀ e ∈ a.state.trace, e.task ≠ i := by
    intro e he
    rw [← hrecallsₐ.state] at he
    have hlt := htoldₐ.chronicle.task_lt he
    rw [hrecallsₐ.length] at hlt
    exact Nat.ne_of_lt (Nat.lt_of_lt_of_le hlt hi)
  rw [← hrecalls.state] at htrace hretained
  have hmoving : m.tasks[i]? = some ⟨.dispatchPending, .pure v⟩ := hrecalls.moving ht (by simp)
  obtain ⟨before, n, hd, hcovered⟩ := htold.covered_by_pass hmoving htrace hnone hp hrecord htopic
  have hserved' : Served m p.1.subscriptionId := by
    refine ⟨?_, ?_⟩
    · rw [hrecalls.state]
      exact hserved.active
    · rw [hrecalls.state]
      exact hserved.authorized
  have hpassed := htold.position_of_covered rfl rfl hserved' hcovered hat hretained
  -- and positions do not pass what is not accounted for
  have hlater : p ∈ added m.state.trace := by
    rw [htrace]
    exact added_mono hp
  have hrecord' : record ∈ appended m.state.trace topic := by
    rw [htrace]
    exact appended_mono hrecord
  have haccounted := (htold.now.inv.accounts rfl p.1.subscriptionId topic p hlater rfl).2 record hrecord' o hat hstart hpassed
  rw [hrecalls.state] at hpassed haccounted
  refine ⟨hpassed, ?_⟩
  rcases haccounted with hrefused | hpast | hdone
  · exact .inl hrefused
  · rw [← hrecalls.state] at hpast
    exact absurd hpast (htold.not_passed hrecord' hat hretained)
  · exact .inr hdone

/-! ## A concrete recovery -/

namespace Sample

/-- The publisher with its dispatches left to the worker. -/
def deferring : PublisherConfig := { config with deferredDispatch := true }

/-- The process stops after the first pass has sent the event. -/
def interrupted : List (Action (sem deferring 5).traced) :=
  call 0 (.declareTopic topic) 1 ++ call 1 (.subscribe subscription) 4 ++ call 2 (.publish "t" "x" [] none) 1 ++
    call 3 .dispatchPending 2 ++ List.replicate 5 (.task 4 {}) ++ [.crash]

/-- A pass of the next process. -/
def recovered : List (Action (sem deferring 5).traced) :=
  call 5 .dispatchPending 2 ++ List.replicate 14 (.task 6 {}) ++ [.task 5 {}]

/-- Whether the pass has returned. -/
def hasPassed (c : Run.Config cfg fuel) (i : Nat) : Bool :=
  match c.tasks[i]? with
  | some ⟨.dispatchPending, .pure _⟩ => true
  | _ => false

theorem hasPassed_spec {c : Run.Config cfg fuel} {i : Nat} (h : hasPassed c i = true) :
    ∃ v, c.tasks[i]? = some ⟨.dispatchPending, .pure v⟩ := by
  unfold hasPassed at h
  split at h
  · rename_i v heq
    exact ⟨v, heq⟩
  · cases h

/-- Whether the subscription starts before the first event of the topic, which is there, in retention and was sent twice. -/
def resent (a c : Run.Config cfg fuel) (p : Subscription × Dict String Int) (record : EventRecord) : Bool :=
  servedThroughout c p.1.subscriptionId && p.1.topics.contains "t" && p.2.getD "t" (-1) = -1 && record.topic = "t" &&
    (Cursor.encode "t" 0).toOption = some record.cursor &&
    ((c.state.state.store.logs.get? "t").all fun log => EventStore.retained log.topic c.state.state.clock record) &&
    sends a.state.trace p.1.subscriptionId "t" = [(0, 1)] && sends c.state.trace p.1.subscriptionId "t" = [(0, 1), (0, 1)]

end Sample

/-- The process stops after a send, and the next one makes up for it. -/
theorem recovers_of_run_sample : ∃ a c : Run.Config Sample.deferring 5,
    ∃ (p : Subscription × Dict String Int) (record : EventRecord),
    Unrenewed (initial Sample.deferring 5 .live 0 none) a ∧ Unrenewed a c ∧
      sends c.state.trace p.1.subscriptionId "t" = [(0, 1), (0, 1)] ∧ Settled c p.1 "t" record 0 := by
  have hrun : (((initial Sample.deferring 5 .live 0 none).runsWith unrenewed Sample.interrupted).any fun a =>
      (a.runsWith unrenewed Sample.recovered).any fun c => a.tasks.length = 5 && Sample.hasPassed c 5 &&
        (added a.state.trace).any fun p => (appended a.state.trace "t").any fun record => Sample.resent a c p record) = true := by
    decide +kernel
  obtain ⟨a, hfirst, hrest⟩ := (Option.any_eq_true _ _).mp hrun
  obtain ⟨c, hsecond, hends⟩ := (Option.any_eq_true _ _).mp hrest
  simp only [Bool.and_eq_true, List.any_eq_true, decide_eq_true_eq] at hends
  obtain ⟨⟨hlength, hpassed⟩, p, hp, record, hrecord, hresent⟩ := hends
  obtain ⟨v, hv⟩ := Sample.hasPassed_spec hpassed
  simp only [Sample.resent, Bool.and_eq_true, decide_eq_true_eq, List.contains_iff_mem] at hresent
  obtain ⟨⟨⟨⟨⟨⟨⟨hserved, htopic⟩, hstart⟩, hnamed⟩, hcursor⟩, hretained⟩, -⟩, hsends⟩ := hresent
  have hat : record.LiesAt "t" 0 := by
    refine ⟨hnamed, ?_⟩
    cases hencode : Cursor.encode "t" 0 with
    | error e => simp [hencode, Except.toOption] at hcursor
    | ok cursor => simpa [hencode, Except.toOption] using hcursor
  have hkept : Retained c.state "t" record := by
    intro log hlog
    rw [hlog] at hretained
    exact hretained
  exact ⟨a, c, p, record, .of_runsWith (fun _ _ h => h) hfirst, .of_runsWith (fun _ _ h => h) hsecond, hsends,
    recovers_of_run rfl (by decide) (.of_runsWith (fun _ _ h => h) hfirst) (.of_runsWith (fun _ _ h => h) hsecond)
      (Nat.le_of_eq hlength) hv hp (Sample.servedThroughout_spec hserved) htopic hrecord hkept hat (by rw [hstart]; decide)⟩

end A2AEvents
