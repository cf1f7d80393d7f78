import A2AEvents.Spec.DeliveriesCorrect
import A2AEvents.Spec.DispatchCovers

/-!
# Subscription cutover

A subscribe from the latest event looks up the heads of its topics, adds the subscription with them
and catches up; publishers append, list the subscriptions and catch up those that they find. The
calls interleave freely. An event that is appended before the list is read may be missed by the
publisher or by the subscribe, but not by both, and catch-up under the dispatch lock sends it once.

## Key results

- `Told.sent_iff`: what is sent is what lies beyond the start
- `cutover_of_run`: the cutover loses nothing and duplicates nothing
-/

namespace A2AEvents

open Async Publisher

variable {cfg : PublisherConfig} {fuel : Nat}

/-! ## The events sent -/

/-- The event that the call sent to a subscription. -/
def Entry.sentEvent? (subscriptionId topic : String) : Entry cfg fuel → Option EventRecord
  | ⟨_, .send sub record _ _, _, _⟩ =>
    if sub.subscriptionId = subscriptionId ∧ record.topic = topic then some record else none
  | _ => none

/-- The events of a topic that were sent to a subscription, once for every attempt. -/
def sentEvents (trace : List (Entry cfg fuel)) (subscriptionId topic : String) : List EventRecord :=
  trace.filterMap (Entry.sentEvent? subscriptionId topic)

section Sent

variable {trace : List (Entry cfg fuel)} {id topic : String} {record : EventRecord}

theorem mem_sentEvents : record ∈ sentEvents trace id topic ↔ record.topic = topic ∧
    ∃ (i : Nat) (sub : Subscription) (n : Nat) (frame : Frame) (r : (Op.send sub record n frame).Res) (w : World),
      sub.subscriptionId = id ∧ (⟨i, .send sub record n frame, r, w⟩ : Entry cfg fuel) ∈ trace := by
  constructor
  · intro h
    obtain ⟨⟨i, o, r, w⟩, he, hsent⟩ := List.mem_filterMap.mp h
    cases o with
    | send sub record' n frame =>
      simp only [Entry.sentEvent?, Option.ite_none_right_eq_some, Option.some.injEq] at hsent
      obtain ⟨⟨hid, htopic⟩, rfl⟩ := hsent
      exact ⟨htopic, i, sub, n, frame, r, w, hid, he⟩
    | _ => cases hsent
  · rintro ⟨htopic, i, sub, n, frame, r, w, hid, he⟩
    exact List.mem_filterMap.mpr ⟨_, he, if_pos ⟨hid, htopic⟩⟩

/-- The offsets sent are those of the events sent. -/
theorem map_fst_sends : (sends trace id topic).map Prod.fst =
    (sentEvents trace id topic).filterMap fun record => (Cursor.offsetOf record.cursor).toOption := by
  induction trace with
  | nil => rfl
  | cons e trace ih =>
    have hhead : (e.sent? id topic).map Prod.fst =
        (e.sentEvent? id topic).bind fun record => (Cursor.offsetOf record.cursor).toOption := by
      obtain ⟨i, o, r, w⟩ := e
      cases o with
      | send sub record n frame =>
        simp only [Entry.sent?, Entry.sentEvent?]
        split
        · rw [Option.bind_some]
          cases Cursor.offsetOf record.cursor <;> rfl
        · rfl
      | _ => rfl
    -- an event without an offset would be missing on both sides
    simp only [sends, sentEvents, List.filterMap_cons] at ih ⊢
    cases hevent : e.sentEvent? id topic with
    | none =>
      rw [hevent, Option.bind_none, Option.map_eq_none_iff] at hhead
      rw [hhead]
      exact ih
    | some record =>
      rw [hevent, Option.bind_some] at hhead
      rw [List.filterMap_cons, ← hhead]
      cases e.sent? id topic with
      | none => exact ih
      | some p => exact congrArg (p.1 :: ·) ih

/-- First attempts in log order ascend. -/
theorem InOrder.ascends {l : List (Nat × Nat)} (h : InOrder l) (hfirst : ∀ p ∈ l, p.2 = 1) :
    (l.map Prod.fst).Pairwise (· < ·) := by
  have hchain : l.IsChain fun a b => a.1 < b.1 := by
    refine h.2.imp_of_mem_imp fun a b ha hb hfollows => ?_
    rcases hfollows with ⟨-, hn⟩ | ⟨hlt, -⟩
    · -- a second attempt of an event is none of the first ones
      rw [hfirst a ha, hfirst b hb] at hn
      cases hn
    · exact hlt
  rw [← List.isChain_iff_pairwise, List.isChain_map]
  exact hchain

end Sent

/-! ## Runs -/

/-- The transport acks what it is sent. -/
def acks (ch : Choice) (_ : Job) (o : Op) : Bool :=
  match o, ch.result with
  | .send .., .ok result => result.ack
  | .send .., .error _ => false
  | _, _ => true

/-- What a cutover needs of the other calls. -/
def cutoverRegime : Regime := { monotone := true, ordered := true, accounted := true, gated := true, acked := true }

/-- Any interleaving of calls in a process that does not stop, with a transport that acks all. The calls are others
    than renewals, explicit acks and retries. -/
def undisturbed (c : Run.Config cfg fuel) : Action (sem cfg fuel).traced → Bool
  | .start j => callable j c.state.state && !cutoverRegime.exclusive j
  | .task i ch => calls c i (acks ch)
  | .env _ => true
  | .crash => false

theorem acked_of_acks {ch : Choice} {j : Job} {sub : Subscription} {record : EventRecord} {n : Nat} {frame : Frame}
    (h : acks ch j (.send sub record n frame) = true) : ∃ result, ch.result = .ok result ∧ result.ack = true := by
  cases hresult : ch.result with
  | error e => simp [acks, hresult] at h
  | ok result => exact ⟨result, rfl, by simpa [acks, hresult] using h⟩

private theorem acks_admissible {j : Job} {o : Op} {ch : Choice} {s : Snapshot cfg fuel}
    (hj : cutoverRegime.exclusive j = false) (h : acks ch j o = true) : Admissible cutoverRegime j o ch s := by
  -- retries are exclusive
  have hretry : j.isRetry = false := by
    cases j <;> first | rfl | cases hj
  unfold Admissible
  split
  · obtain ⟨result, hresult, hack⟩ := acked_of_acks h
    refine ⟨fun _ => ⟨result, hresult, fun hnot => ?_⟩, fun _ hr => ?_, fun _ => ⟨result, hresult, hack⟩⟩
    · rw [hack] at hnot
      cases hnot
    · rw [hretry] at hr
      cases hr
  · refine fun row _ => ⟨fun _ hr => ?_, fun hb => (by cases hb)⟩
    rw [hretry] at hr
    cases hr
  · exact fun hb => (by cases hb)
  · trivial

theorem undisturbed_peaceful : @Peaceful cfg fuel cutoverRegime fun c act => undisturbed c act = true where
  start := fun h => by simpa [undisturbed] using h
  task := fun h _ ht hj _ _ hp => acks_admissible hj (calls_spec h ht hp)
  crash := fun h => (by cases h)

theorem cutoverRegime_fits (hattempts : cfg.retryQueue = true ∨ 1 ≤ cfg.maxAttempts) : cutoverRegime.Fits cfg where
  ordered := fun _ => .inr rfl
  accounted := by
    intro _
    cases hqueue : cfg.retryQueue with
    | true => exact .inr ⟨rfl, rfl⟩
    | false => exact .inl ⟨rfl, hattempts.resolve_left (by rw [hqueue]; exact Bool.false_ne_true)⟩

private theorem undisturbed_clientsCall {c : Run.Config cfg fuel} {act : Action (sem cfg fuel).traced}
    (h : undisturbed c act = true) : ClientsCall c act := by
  cases act with
  | start j =>
    cases j with
    | dispatchSubscription | retryDelivery => simp [undisturbed, callable, Regime.exclusive] at h
    | _ => trivial
  | _ => trivial

section Run

variable {clock : Time} {authorizer : Option AllowlistAuthorizer} {a b c : Run.Config cfg fuel}

/-- A run of calls that a cutover may interleave with. -/
abbrev Undisturbed (a b : Run.Config cfg fuel) : Prop := Config.Run (fun c act => undisturbed c act = true) a b

theorem acked_of_run (hc : Undisturbed (initial cfg fuel .live clock authorizer) c) :
    ∀ e ∈ c.state.trace, Entry.Acked e := by
  refine Config.Run.entries (fun i o r w ho => ?_) ?_ hc fun _ he => (by cases he)
  · cases o <;> trivial
  · intro c i ch t o k r w hok ht hp hex
    have hacks := calls_spec hok ht hp
    cases o with
    | send sub record n frame =>
      obtain ⟨result, hresult, hack⟩ := acked_of_acks hacks
      cases hex
      exact ⟨result, hresult, hack⟩
    | _ => trivial

theorem told_of_run (hattempts : cfg.retryQueue = true ∨ 1 ≤ cfg.maxAttempts)
    (hc : Undisturbed (initial cfg fuel .live clock authorizer) c) : ∃ ds, Told cutoverRegime c ds :=
  Told.of_run undisturbed_peaceful (cutoverRegime_fits hattempts) (fun _ h => (by cases h)) hc

theorem started_of_run (hc : Undisturbed (initial cfg fuel .live clock authorizer) c) : Started c.state :=
  (startsContract_sound.good_run ClientsCall.admissible started_initial
    (hc.mono fun _ _ h => undisturbed_clientsCall h)).1

section Told

variable {ds ds₁ ds₂ : List (Deed (sem cfg fuel))} {k : Nat} {p : Subscription × Dict String Int} {w : World}
  {sub : Subscription} {topic : String} {record : EventRecord} {R : Regime}

/-- What is sent was appended and lies beyond the start. -/
theorem Told.appended_of_sent (h : Told R c ds) (hstarted : Started c.state) (hp : p ∈ added c.state.trace)
    (hsent : record ∈ sentEvents c.state.trace p.1.subscriptionId topic) :
    record ∈ appended c.state.trace topic ∧ ∃ o : Nat, record.LiesAt topic o ∧
      Cursor.offsetOf record.cursor = .ok o ∧ p.2.getD topic (-1) < o := by
  obtain ⟨rfl, i, sub, n, frame, r, w, hid, he⟩ := mem_sentEvents.mp hsent
  obtain ⟨hrecord, o, hat, ho⟩ := h.sent_appended he
  obtain ⟨-, hafter⟩ := hstarted.told _ he
  have hle := (hafter o ho).start p hp hid.symm
  exact ⟨hrecord, o, hat, ho, by omega⟩

/-- What is sent to the subscription is what lies beyond its start. -/
theorem Told.sent_iff (h : Told cutoverRegime c ds) (hstarted : Started c.state) (hinline : cfg.deferredDispatch = false)
    (hsub : Subscribes ds ds₁ ds₂ k p w sub) (hserved : Served c p.1.subscriptionId) (hselector : p.1.selector = none)
    (htopic : topic ∈ p.1.topics) (hpublished : Published c topic)
    (hretained : ∀ record ∈ appended c.state.trace topic, Retained c.state topic record) :
    record ∈ sentEvents c.state.trace p.1.subscriptionId topic ↔
      record ∈ appended c.state.trace topic ∧ ∃ o : Nat, record.LiesAt topic o ∧ p.2.getD topic (-1) < o := by
  have hp : p ∈ added c.state.trace := by
    rw [← h.chronicle.trace, hsub.deeds]
    exact mem_added_of_deed (List.mem_append_right _ (.head _))
  constructor
  · intro hsent
    obtain ⟨hrecord, o, hat, -, hlt⟩ := h.appended_of_sent hstarted hp hsent
    exact ⟨hrecord, o, hat, hlt⟩
  · rintro ⟨hrecord, o, hat, hlt⟩
    -- one of the two catch-ups has taken the position past the event
    obtain ⟨past, i, j, hd, topics, hcovered⟩ := h.covers hinline hsub hpublished hrecord htopic
    have hle := h.position_of_covered rfl rfl hserved hcovered hat (hretained record hrecord)
    have haccounted := (h.now.inv.accounts rfl p.1.subscriptionId topic p hp rfl).2 record hrecord o hat hlt hle
    have hoffset := h.sent_of_accounted haccounted hselector hrecord hat (hretained record hrecord)
    rw [map_fst_sends] at hoffset
    obtain ⟨record', hsent, ho⟩ := List.mem_filterMap.mp hoffset
    -- and there is no other event at its offset
    obtain ⟨hrecord', o', hat', ho', -⟩ := h.appended_of_sent hstarted hp hsent
    rw [ho'] at ho
    cases ho
    rw [h.now.inv.store.unique topic record hrecord record' hrecord' o hat hat']
    exact hsent

/-- No event is sent twice. -/
theorem Told.sent_nodup (h : Told cutoverRegime c ds) (hstarted : Started c.state)
    (hacked : ∀ e ∈ c.state.trace, Entry.Acked e) (hp : p ∈ added c.state.trace) :
    (sentEvents c.state.trace p.1.subscriptionId topic).Nodup := by
  have hfirst : ∀ q ∈ sends c.state.trace p.1.subscriptionId topic, q.2 = 1 := by
    intro q hq
    obtain ⟨⟨i, o, r, w⟩, he, hsent⟩ := List.mem_filterMap.mp hq
    cases o with
    | send sub record n frame =>
      have hn := h.sent_first hacked he
      simp only [Entry.sent?, Option.ite_none_right_eq_some] at hsent
      obtain ⟨-, hsent⟩ := hsent
      split at hsent
      · cases hsent
        exact hn
      · cases hsent
    | _ => cases hsent
  have hascends := ((h.now.inv.ordered rfl).inOrder p.1.subscriptionId topic).ascends hfirst
  rw [map_fst_sends, List.pairwise_filterMap] at hascends
  -- two sends of one event would be at one offset
  refine hascends.imp_of_mem fun {record record'} hsent _ hlt heq => ?_
  obtain ⟨-, o, -, ho, -⟩ := h.appended_of_sent hstarted hp hsent
  have hself := hlt o (by rw [ho]; rfl) o (by rw [← heq, ho]; rfl)
  exact absurd hself (Nat.lt_irrefl o)

/-- A publish that returned an event has appended it. -/
theorem Told.appended_of_publish (h : Told R c ds) (hinline : cfg.deferredDispatch = false) {i : Nat} {type : String}
    {data : List (String × Json)} {subject : Option String}
    (ht : c.tasks[i]? = some ⟨.publish topic type data subject, .pure (.record record)⟩) :
    ∃ w, (⟨i, .append topic type cfg.source data subject, .ok record, w⟩ : Entry cfg fuel) ∈ c.state.trace := by
  have hreturns : (code cfg fuel (.publish topic type data subject)).Returns (movesOf i ds) (.record record) :=
    h.chronicle.takes i _ ht
  obtain ⟨record', hs, ids, vs, hval, hmoves⟩ := publish_returns hinline hreturns
  cases hval
  exact h.chronicle.answered (by rw [hmoves]; exact .head _)

/-- An event whose publish returned before the subscribe was called does not lie beyond the head. -/
theorem Told.le_start (h : Told R c ds) {dsₐ : List (Deed (sem cfg fuel))} (ha : Told R a dsₐ)
    (hinline : cfg.deferredDispatch = false) (htrace : ∃ later, c.state.trace = a.state.trace ++ later)
    (hk : a.tasks.length ≤ k) {start : Int} (hhead : Answers.Head (c.state.received k) topic start) {i : Nat} {type : String}
    {data : List (String × Json)} {subject : Option String}
    (ht : a.tasks[i]? = some ⟨.publish topic type data subject, .pure (.record record)⟩)
    (hretained : ∀ record ∈ appended c.state.trace topic, Retained c.state topic record) :
    ∃ o : Nat, record.LiesAt topic o ∧ o ≤ start := by
  obtain ⟨w, he⟩ := ha.appended_of_publish hinline ht
  have hrecord := mem_appended he
  obtain ⟨o, -, hat⟩ := ha.now.inv.store.numbered topic record hrecord
  obtain ⟨later, hlater⟩ := htrace
  -- the subscribe had not begun
  have hnone : ∀ e ∈ a.state.trace, e.task ≠ k := fun e he =>
    Nat.ne_of_lt (Nat.lt_of_lt_of_le (ha.chronicle.task_lt he) hk)
  refine ⟨o, hat, h.le_head hlater hnone hhead hrecord hat (hretained record ?_)⟩
  rw [hlater]
  exact appended_mono hrecord

end Told

/-! ## Cutover -/

/-- A subscribe from the latest event without a selector has returned, and so have the publishes on its topics; no
    event of these topics is out of retention. -/
structure Cutover (c : Run.Config cfg fuel) (k : Nat) (req : SubscribeRequest) (sub : Subscription) : Prop where
  latest : req.fromCursor = Cursor.latest
  unselected : req.selector = none
  subscribed : c.tasks[k]? = some ⟨.subscribe req, .pure (.subscription sub)⟩
  published : ∀ topic ∈ sub.topics, Published c topic
  retained : ∀ topic ∈ sub.topics, ∀ record ∈ appended c.state.trace topic, Retained c.state topic record

/-- What is sent on a topic to a subscription of task `k` is what lies beyond its start, once. What was published
    before the task began lies at the start or before it, what is published after the task has returned beyond it. -/
structure CutsOver (first c : Run.Config cfg fuel) (k : Nat) (req : SubscribeRequest) (sub : Subscription)
    (topic : String) (start : Int) : Prop where
  sent : ∀ record, record ∈ sentEvents c.state.trace sub.subscriptionId topic ↔
    record ∈ appended c.state.trace topic ∧ ∃ o : Nat, record.LiesAt topic o ∧ start < o
  once : (sentEvents c.state.trace sub.subscriptionId topic).Nodup
  earlier : ∀ a, Undisturbed first a → Undisturbed a c → a.tasks.length ≤ k → ∀ (i : Nat) type data subject record,
    a.tasks[i]? = some ⟨.publish topic type data subject, .pure (.record record)⟩ →
      ∃ o : Nat, record.LiesAt topic o ∧ o ≤ start
  later : ∀ b, Undisturbed first b → Undisturbed b c → b.tasks[k]? = some ⟨.subscribe req, .pure (.subscription sub)⟩ →
    ∀ (i : Nat) type data subject record, b.tasks.length ≤ i →
      c.tasks[i]? = some ⟨.publish topic type data subject, .pure (.record record)⟩ →
        ∃ o : Nat, record.LiesAt topic o ∧ start < o

/-- The subscription was added with start offsets at which it is cut over on all its topics. -/
def Seamless (first c : Run.Config cfg fuel) (k : Nat) (req : SubscribeRequest) (sub : Subscription) : Prop :=
  ∃ p ∈ added c.state.trace, p.1.subscriptionId = sub.subscriptionId ∧ ∀ topic ∈ sub.topics, ∃ start,
    p.2.get? topic = some start ∧ CutsOver first c k req sub topic start

section Cutover

variable {k : Nat} {req : SubscribeRequest} {sub : Subscription}

/-- An event whose publish began after the subscribe had returned lies beyond the head. -/
theorem start_lt_of_run (hattempts : cfg.retryQueue = true ∨ 1 ≤ cfg.maxAttempts) (hinline : cfg.deferredDispatch = false)
    (hb : Undisturbed (initial cfg fuel .live clock authorizer) b) (hbc : Undisturbed b c) {topic : String} {start : Int}
    (hstart : start < b.state.state.store.count topic) {i : Nat} (hi : b.tasks.length ≤ i) {type : String}
    {data : List (String × Json)} {subject : Option String} {record : EventRecord}
    (ht : c.tasks[i]? = some ⟨.publish topic type data subject, .pure (.record record)⟩) :
    ∃ o : Nat, record.LiesAt topic o ∧ start < o := by
  obtain ⟨ds, h⟩ := told_of_run hattempts (hb.trans hbc)
  obtain ⟨dsᵦ, hᵦ⟩ := told_of_run hattempts hb
  obtain ⟨-, later, htrace, hworlds⟩ := undisturbed_peaceful.worlds (cutoverRegime_fits hattempts) hb hbc
  obtain ⟨w, he⟩ := h.appended_of_publish hinline ht
  -- the append is none of the earlier calls
  have hlater : (⟨i, .append topic type cfg.source data subject, .ok record, w⟩ : Entry cfg fuel) ∈ later := by
    rw [htrace] at he
    refine (List.mem_append.mp he).resolve_left fun hearlier => ?_
    exact absurd (hᵦ.chronicle.task_lt hearlier) (Nat.not_lt.mpr hi)
  obtain ⟨before, after, hsplit⟩ := List.append_of_mem hlater
  have hgrows := (hworlds _ _ _ hsplit).2
  obtain ⟨ch, w', hex⟩ := h.now.written.performed _ he
  simp only [World.exec, Option.some.injEq, Prod.mk.injEq] at hex
  obtain ⟨hat, -⟩ := EventStore.append_ok hex.1
  exact ⟨_, hat, lt_of_lt_of_le hstart (Int.ofNat_le.mpr (hgrows.store.count topic))⟩

/-- The new subscription is sent exactly the events beyond its start, each once, whatever the interleaving. -/
theorem cutover_of_run (hinline : cfg.deferredDispatch = false) (hattempts : cfg.retryQueue = true ∨ 1 ≤ cfg.maxAttempts)
    (hc : Undisturbed (initial cfg fuel .live clock authorizer) c) (h : Cutover c k req sub)
    (hserved : Served c sub.subscriptionId) :
    Seamless (initial cfg fuel .live clock authorizer) c k req sub := by
  obtain ⟨ds, htold⟩ := told_of_run hattempts hc
  have hstarted := started_of_run hc
  obtain ⟨ds₁, ds₂, p, w, hsub⟩ := htold.subscribes hinline h.subscribed
  have hp : p ∈ added c.state.trace := by
    rw [← htold.chronicle.trace, hsub.deeds]
    exact mem_added_of_deed (List.mem_append_right _ (.head _))
  obtain ⟨hselector, hheads⟩ := htold.heads hstarted hsub h.subscribed h.latest
  refine ⟨p, hp, hsub.alike.subscriptionId.symm, fun topic htopic => ?_⟩
  have hhas : topic ∈ p.1.topics := hsub.alike.topics ▸ htopic
  obtain ⟨start, hstart, hhead⟩ := hheads topic hhas
  refine ⟨start, hstart, ?_, ?_, ?_, ?_⟩
  · intro record
    have hgetD : p.2.getD topic (-1) = start := by rw [Dict.getD, hstart, Option.getD_some]
    rw [← hgetD, hsub.alike.subscriptionId]
    exact htold.sent_iff hstarted hinline hsub (hsub.alike.subscriptionId ▸ hserved) (hselector.trans h.unselected) hhas
      (h.published topic htopic) (h.retained topic htopic)
  · rw [hsub.alike.subscriptionId]
    exact htold.sent_nodup hstarted (acked_of_run hc) hp
  · intro a ha hac hk i type data subject record ht
    obtain ⟨dsₐ, htoldₐ⟩ := told_of_run hattempts ha
    obtain ⟨-, later, htrace, -⟩ := undisturbed_peaceful.worlds (cutoverRegime_fits hattempts) ha hac
    exact htold.le_start htoldₐ hinline ⟨later, htrace⟩ hk hhead ht (h.retained topic htopic)
  · intro b hb hbc hreturned i type data subject record hi ht
    obtain ⟨dsᵦ, htoldᵦ⟩ := told_of_run hattempts hb
    obtain ⟨ds₃, ds₄, q, w', hsubᵦ⟩ := htoldᵦ.subscribes hinline hreturned
    obtain ⟨-, later, htrace, -⟩ := undisturbed_peaceful.worlds (cutoverRegime_fits hattempts) hb hbc
    -- the heads were looked up by then
    have hq : q ∈ added b.state.trace := by
      rw [← htoldᵦ.chronicle.trace, hsubᵦ.deeds]
      exact mem_added_of_deed (List.mem_append_right _ (.head _))
    have hqp : q = p := htold.added_unique (by rw [htrace]; exact added_mono hq) hp
      (hsubᵦ.alike.subscriptionId.symm.trans hsub.alike.subscriptionId)
    obtain ⟨-, hheadsᵦ⟩ := htoldᵦ.heads (started_of_run hb) hsubᵦ hreturned h.latest
    obtain ⟨start', hstart', hheadᵦ⟩ := hheadsᵦ topic (by rw [hqp]; exact hhas)
    rw [hqp, hstart] at hstart'
    cases hstart'
    exact start_lt_of_run hattempts hinline hb hbc (htoldᵦ.head_lt hheadᵦ) hi ht

end Cutover

end Run

/-! ## Concrete runs -/

namespace Sample

variable {c : Run.Config cfg fuel} {k : Nat} {req : SubscribeRequest} {sub : Subscription}

/-- The subscription that a task returned, with the request for it. -/
def subscribed? (c : Run.Config cfg fuel) (k : Nat) : Option (SubscribeRequest × Subscription) :=
  match c.tasks[k]? with
  | some ⟨.subscribe req, .pure (.subscription sub)⟩ => some (req, sub)
  | _ => none

theorem subscribed?_spec (h : subscribed? c k = some (req, sub)) :
    c.tasks[k]? = some ⟨.subscribe req, .pure (.subscription sub)⟩ := by
  unfold subscribed? at h
  split at h
  · rename_i heq
    cases h
    exact heq
  · cases h

/-- The task is no publish, or it has returned. -/
def hasPublished : Task sig → Bool
  | ⟨.publish .., .pure _⟩ => true
  | ⟨.publish .., _⟩ => false
  | _ => true

theorem hasPublished_spec {t : Task sig} (h : hasPublished t = true) {topic type : String}
    {data : List (String × Json)} {subject : Option String} (hjob : t.job = .publish topic type data subject) :
    ∃ v, t.prog = .pure v := by
  obtain ⟨job, prog⟩ := t
  cases hjob
  cases prog with
  | pure v => exact ⟨v, rfl⟩
  | _ => cases h

/-- Whether a run ends with a subscribe from the latest event. -/
def cutover (c : Run.Config cfg fuel) (req : SubscribeRequest) (sub : Subscription) : Bool :=
  req.fromCursor = Cursor.latest && req.selector.isNone && c.tasks.all hasPublished &&
    sub.topics.all fun topic => (appended c.state.trace topic).all fun record =>
      (c.state.state.store.logs.get? topic).all fun log => EventStore.retained log.topic c.state.state.clock record

theorem cutover_spec (hsub : subscribed? c k = some (req, sub)) (h : cutover c req sub = true) : Cutover c k req sub := by
  simp only [cutover, Bool.and_eq_true, decide_eq_true_eq, Option.isNone_iff_eq_none, List.all_eq_true] at h
  obtain ⟨⟨⟨hlatest, hselector⟩, hpublished⟩, hretained⟩ := h
  refine ⟨hlatest, hselector, subscribed?_spec hsub, fun _ _ t ht _ _ _ hjob => hasPublished_spec (hpublished t ht) hjob, ?_⟩
  intro topic htopic record hrecord log hlog
  have hall := hretained topic htopic record hrecord
  rw [hlog] at hall
  exact hall

/-- The call was no refusal of a delivery. -/
def authorizes : Entry cfg fuel → Bool
  | ⟨_, .authorizeDelivery _, authorized, _⟩ => authorized
  | _ => true

/-- Whether a subscription is served to the end. -/
def servedThroughout (c : Run.Config cfg fuel) (id : String) : Bool :=
  ((c.state.state.subs.rows.get? id).all fun row => row.status = .active && c.state.state.clock < row.leaseUntil) &&
    c.state.trace.all authorizes

theorem servedThroughout_spec {id : String} (h : servedThroughout c id = true) : Served c id := by
  simp only [servedThroughout, Bool.and_eq_true, List.all_eq_true] at h
  refine ⟨fun row hrow hlapsed => ?_, fun i hd authorized w he _ => h.2 _ he⟩
  have hrunning := h.1
  simp only [hrow, Option.all_some, Bool.and_eq_true, decide_eq_true_eq] at hrunning
  rcases hlapsed with hstatus | hlease
  · exact hstatus hrunning.1
  · exact absurd hrunning.2 (not_lt.mpr hlease)

/-- One event is published before the subscribe, one between its looking up the head and its adding the subscription,
    one is appended before that and listed after it, and one is published after the subscribe. -/
def interleaved : List (Action (sem config 5).traced) :=
  call 0 (.declareTopic topic) 1 ++ call 1 (.publish "t" "x" [] none) 4 ++ call 2 (.subscribe subscription) 4 ++
    call 3 (.publish "t" "x" [] none) 4 ++ call 4 (.publish "t" "x" [] none) 1 ++ [.task 2 {}] ++
    List.replicate 2 (.task 4 {}) ++ List.replicate 19 (.task 5 {}) ++ [.task 4 {}] ++ List.replicate 3 (.task 2 {}) ++
    published 6 13

/-- Whether the one event of the topic was not sent, though it lies beyond every start. -/
def missed (c : Run.Config cfg fuel) (sub : Subscription) : Bool :=
  sub.topics.contains "t" && (sentEvents c.state.trace sub.subscriptionId "t").isEmpty &&
    ((added c.state.trace).all fun p => p.2.get? "t" = some (-1)) &&
    (appended c.state.trace "t").any fun record => record.topic = "t" && (Cursor.encode "t" 0).toOption = some record.cursor

theorem not_seamless {first : Run.Config cfg fuel} (h : missed c sub = true) : ¬ Seamless first c k req sub := by
  simp only [missed, Bool.and_eq_true, List.isEmpty_iff, List.all_eq_true, List.any_eq_true, decide_eq_true_eq,
    List.contains_iff_mem] at h
  obtain ⟨⟨⟨htopic, hnone⟩, hstarts⟩, record, hrecord, hnamed, hcursor⟩ := h
  rintro ⟨p, hp, -, hall⟩
  obtain ⟨start, hstart, hcuts⟩ := hall "t" htopic
  rw [hstarts p hp] at hstart
  cases hstart
  have hat : record.LiesAt "t" 0 := by
    refine ⟨hnamed, ?_⟩
    cases hencode : Cursor.encode "t" 0 with
    | error e => simp [hencode, Except.toOption] at hcursor
    | ok cursor => simpa [hencode, Except.toOption] using hcursor
  have hsent := (hcuts.sent record).mpr ⟨hrecord, 0, hat, by decide⟩
  rw [hnone] at hsent
  cases hsent

/-- Whether a run ends with a cutover that passes a further check. -/
def endsInCutover (c : Run.Config cfg fuel) (k : Nat) (test : Run.Config cfg fuel → Subscription → Bool) : Bool :=
  (subscribed? c k).any fun p => cutover c p.1 p.2 && test c p.2

theorem endsInCutover_spec {test : Run.Config cfg fuel → Subscription → Bool} (h : endsInCutover c k test = true) :
    ∃ req sub, Cutover c k req sub ∧ test c sub = true := by
  obtain ⟨p, hsub, hp⟩ := (Option.any_eq_true _ _).mp h
  rw [Bool.and_eq_true] at hp
  exact ⟨p.1, p.2, cutover_spec hsub hp.1, hp.2⟩

/-- A publisher that never attempts a delivery. -/
def idle : PublisherConfig := { config with maxAttempts := 0 }

end Sample

/-- Nothing is lost and nothing sent twice. -/
theorem cutover_of_run_sample : ∃ c : Run.Config Sample.config 5, ∃ req sub,
    Undisturbed (initial Sample.config 5 .live 0 none) c ∧
      sends c.state.trace sub.subscriptionId "t" = [(1, 1), (2, 1), (3, 1)] ∧
      Seamless (initial Sample.config 5 .live 0 none) c 2 req sub := by
  have hrun : ((initial Sample.config 5 .live 0 none).runsWith undisturbed Sample.interleaved).any (fun c =>
      Sample.endsInCutover c 2 fun c sub => Sample.servedThroughout c sub.subscriptionId &&
        sends c.state.trace sub.subscriptionId "t" = [(1, 1), (2, 1), (3, 1)]) = true := by
    decide +kernel
  obtain ⟨c, hc, hends⟩ := Config.Run.of_any hrun
  obtain ⟨req, sub, hcutover, hp⟩ := Sample.endsInCutover_spec hends
  rw [Bool.and_eq_true] at hp
  exact ⟨c, req, sub, hc, of_decide_eq_true hp.2,
    cutover_of_run rfl (.inr (by decide)) hc hcutover (Sample.servedThroughout_spec hp.1)⟩

namespace Sample

/-- The subscriber, as an authenticated caller. -/
def authenticated : SubscribeRequest := { subscription with caller := some ⟨"https://sub.example/card"⟩ }

/-- The subscriber may have the topic. -/
def granting : AllowlistAuthorizer := { grants := Dict.set ∅ "https://sub.example/card" ["t"] }

/-- Some run ends with a cutover that loses events. -/
def Loses (cfg : PublisherConfig) (authorizer : Option AllowlistAuthorizer) : Prop :=
  ∃ c : Run.Config cfg 5, ∃ k req sub, Undisturbed (initial cfg 5 .live 0 authorizer) c ∧ Cutover c k req sub ∧
    ¬ Seamless (initial cfg 5 .live 0 authorizer) c k req sub

theorem loses {authorizer : Option AllowlistAuthorizer} {acts : List (Action (sem cfg 5).traced)}
    (h : ((initial cfg 5 .live 0 authorizer).runsWith undisturbed acts).any (fun c => endsInCutover c 1 missed) = true) :
    Loses cfg authorizer := by
  obtain ⟨c, hc, hends⟩ := Config.Run.of_any h
  obtain ⟨req, sub, hcutover, hmissed⟩ := endsInCutover_spec hends
  exact ⟨c, 1, req, sub, hc, hcutover, not_seamless hmissed⟩

end Sample

/-- An event is not sent once the lease has run out, once the grant of the topic is withdrawn, or if no attempts
    are allowed. -/
theorem cutover_loses : Sample.Loses Sample.config none ∧ Sample.Loses Sample.config (some Sample.granting) ∧
    Sample.Loses Sample.idle none := by
  refine ⟨?_, ?_, ?_⟩
  · have hrun : ((initial Sample.config 5 .live 0 none).runsWith undisturbed
        (Sample.subscribed ++ [.env (.tick 100000000000)] ++ Sample.published 2 2)).any
        (fun c => Sample.endsInCutover c 1 Sample.missed) = true := by
      decide +kernel
    exact Sample.loses hrun
  · have hrun : ((initial Sample.config 5 .live 0 (some Sample.granting)).runsWith undisturbed
        (Sample.call 0 (.declareTopic Sample.topic) 1 ++ Sample.call 1 (.subscribe Sample.authenticated) 7 ++
          [.env (.revoke "https://sub.example/card" none)] ++ Sample.published 2 1)).any
        (fun c => Sample.endsInCutover c 1 Sample.missed) = true := by
      decide +kernel
    exact Sample.loses hrun
  · have hrun : ((initial Sample.idle 5 .live 0 none).runsWith undisturbed
        (Sample.subscribed ++ Sample.published 2 8)).any (fun c => Sample.endsInCutover c 1 Sample.missed) = true := by
      decide +kernel
    exact Sample.loses hrun

end A2AEvents
