import A2AEvents.Spec.AttemptsBounded
import A2AEvents.Spec.ListingCorrect

/-!
# Nothing from before the start

A subscription starts at an offset of each of its topics. Every offset that a task may deliver or
move a position to goes back to a position that it was told or to an item that it took, and no
position and no item lies at or before a start. So nothing up to the start is ever sent, whatever the
tasks do to the positions; and a topic that may not be replayed is not replayed.

## Key results

- `Started.next`: the calls that a task has reason to make keep positions and items beyond the starts
- `startsContract_sound`: so do the jobs of a publisher
- `no_history`: runs send nothing from before the start, and replay no topic that may not be replayed
-/

namespace A2AEvents

open Async Publisher

variable {cfg : PublisherConfig} {fuel : Nat} {j : Job} {i : Nat} {s s' : Snapshot cfg fuel}

/-! ## What is known of a subscription -/

/-- The subscription is there, and started at `offset` of the topic or before it. -/
structure Since (s : Snapshot cfg fuel) (id topic : String) (offset : Int) : Prop where
  has : s.state.Has id
  start : ∀ p ∈ added s.trace, p.1.subscriptionId = id → p.2.getD topic (-1) ≤ offset

/-- The event at the cursor comes after the start of the subscription. -/
def AfterStart (s : Snapshot cfg fuel) (id topic cursor : String) : Prop :=
  ∀ o : Nat, Cursor.offsetOf cursor = .ok o → Since s id topic ((o : Int) - 1)

/-- What an item stands for comes after the start of its subscription. -/
abbrev RetryItem.Starts (s : Snapshot cfg fuel) (item : RetryItem) : Prop :=
  AfterStart s item.subscriptionId item.topic item.cursor

/-- What the answer of a call tells at any later time. -/
def Entry.Tells (s : Snapshot cfg fuel) : Entry cfg fuel → Prop
  | ⟨_, .highWater id, d, _⟩ => ∀ topic, Since s id topic (d.getD topic (-1))
  | ⟨_, .get id, found, _⟩ => ∀ h, found = some h → h.sub.subscriptionId = id ∧ s.state.Has id
  | ⟨_, .listAll, hs, _⟩ => ∀ h ∈ hs, s.state.Has h.sub.subscriptionId
  | ⟨_, .add .., h, _⟩ => s.state.Has h.sub.subscriptionId
  | ⟨_, .deref h, h', _⟩ => h'.sub.subscriptionId = h.sub.subscriptionId
  | ⟨_, .assign h _, h', _⟩ => h'.sub.subscriptionId = h.sub.subscriptionId
  | ⟨_, .update h, h', _⟩ => h'.sub.subscriptionId = h.sub.subscriptionId
  | ⟨_, .claimDue .., items, _⟩ => ∀ item ∈ items, item.Starts s
  | ⟨_, .read topic .., page, _⟩ => ∀ records next, page = .ok (records, next) → ∀ r ∈ records, r.topic = topic
  | ⟨_, .getTopic name, found, _⟩ => ∀ topic, found = .ok topic → TopicOf name topic s
  | ⟨_, .cachedTopic name, found, _⟩ => ∀ topic, found = some topic → TopicOf name topic s
  | ⟨_, .send sub record _ _, _, _⟩ => (∃ o, Cursor.offsetOf record.cursor = .ok o) ∧
    AfterStart s sub.subscriptionId record.topic record.cursor
  | _ => True

/-- What only ever grows. -/
structure Continues (s s' : Snapshot cfg fuel) : Prop where
  trace : ∃ l, s'.trace = s.trace ++ l
  rows : ∀ id, s.state.Has id → s'.state.Has id
  added : ∀ p ∈ added s'.trace, p ∈ added s.trace ∨ ¬ s.state.Has p.1.subscriptionId
  store : s.state.store.Grows s'.state.store

/-- No position and no item lies at or before a start. -/
structure Started (s : Snapshot cfg fuel) : Prop where
  keyed : s.state.Keyed
  store : s.state.store.Wf
  cache : ∀ name topic, s.state.topics.get? name = some topic → TopicOf name topic s
  present : ∀ p ∈ added s.trace, s.state.Has p.1.subscriptionId
  positions : ∀ p ∈ added s.trace, ∀ topic, p.2.getD topic (-1) ≤ s.state.subs.position p.1.subscriptionId topic
  queue : s.state.queue.All fun item => item.Starts s
  told : ∀ e ∈ s.trace, Entry.Tells s e

theorem Continues.refl (s : Snapshot cfg fuel) : Continues s s :=
  ⟨⟨[], by simp⟩, fun _ h => h, fun _ h => .inl h, .refl _⟩

theorem Continues.trans {s'' : Snapshot cfg fuel} (h : Continues s s') (h' : Continues s' s'') : Continues s s'' where
  trace := by
    obtain ⟨l, hl⟩ := h.trace
    obtain ⟨l', hl'⟩ := h'.trace
    exact ⟨l ++ l', by rw [hl', hl, List.append_assoc]⟩
  rows := fun id hid => h'.rows id (h.rows id hid)
  added := by
    intro p hp
    rcases h'.added p hp with hp | hnone
    · exact h.added p hp
    · exact .inr fun hhas => hnone (h.rows _ hhas)
  store := h.store.trans h'.store

theorem Continues.received (h : Continues s s') {o : Op} {r : o.Res} (hr : s.received i o r) : s'.received i o r := by
  obtain ⟨l, hl⟩ := h.trace
  obtain ⟨before, hmem⟩ := hr
  exact ⟨before, by rw [hl]; exact List.mem_append_left _ hmem⟩

/-- A subscription that is there is not added again. -/
theorem Since.continues {id topic : String} {offset : Int} (h : Since s id topic offset) (hx : Continues s s') :
    Since s' id topic offset := by
  refine ⟨hx.rows id h.has, fun p hp hid => ?_⟩
  rcases hx.added p hp with hp | hnone
  · exact h.start p hp hid
  · exact absurd (hid ▸ h.has) hnone

theorem Since.mono {id topic : String} {offset later : Int} (h : Since s id topic offset) (hle : offset ≤ later) :
    Since s id topic later :=
  ⟨h.has, fun p hp hid => Int.le_trans (h.start p hp hid) hle⟩

theorem AfterStart.continues {id topic cursor : String} (h : AfterStart s id topic cursor) (hx : Continues s s') :
    AfterStart s' id topic cursor :=
  fun o ho => (h o ho).continues hx

theorem TopicOf.continues {name : String} {topic : Topic} (h : TopicOf name topic s) (hx : Continues s s') :
    TopicOf name topic s' := by
  obtain ⟨log, hlog, htopic⟩ := h
  obtain ⟨log', hlog', htopic', -⟩ := hx.store name log hlog
  exact ⟨log', hlog', htopic'.trans htopic⟩

theorem Entry.Tells.continues {e : Entry cfg fuel} (h : e.Tells s) (hx : Continues s s') : e.Tells s' := by
  obtain ⟨i, o, r, w⟩ := e
  cases o with
  | highWater id => exact fun topic => (h topic).continues hx
  | get id => exact fun hd hfound => (h hd hfound).imp_right (hx.rows id)
  | listAll => exact fun hd hmem => hx.rows _ (h hd hmem)
  | add sub offsets => exact hx.rows _ h
  | claimDue => exact fun item hmem => (h item hmem).continues hx
  | getTopic name => exact fun topic hfound => (h topic hfound).continues hx
  | cachedTopic name => exact fun topic hfound => (h topic hfound).continues hx
  | send sub record => exact ⟨h.1, h.2.continues hx⟩
  | _ => exact h

/-! ## What a task knows -/

/-- What the arguments of a job have to satisfy. -/
def Entitled (j : Job) (s : Snapshot cfg fuel) : Prop :=
  match j with
  | .dispatchSubscription h _ => s.state.Has h.sub.subscriptionId
  | .retryDelivery item => item.Starts s
  | _ => True

theorem Entitled.continues (h : Entitled j s) (hx : Continues s s') : Entitled j s' := by
  cases j with
  | dispatchSubscription hd topics => exact hx.rows _ h
  | retryDelivery item => exact AfterStart.continues h hx
  | _ => trivial

namespace Started

variable {h : Handle}

theorem tells (hs : Started s) {o : Op} {r : o.Res} (hr : s.received i o r) :
    ∃ w, Entry.Tells s ⟨i, o, r, w⟩ := by
  obtain ⟨before, hmem⟩ := hr
  exact ⟨before, hs.told _ hmem⟩

theorem derived_id (hs : Started s) {h' : Handle} (hd : Answers.Derived (s.received i) j h h') :
    h'.sub.subscriptionId = h.sub.subscriptionId := by
  induction hd with
  | refl => rfl
  | deref _ ha ih =>
    obtain ⟨w, htells⟩ := hs.tells ha
    exact Eq.trans htells ih
  | assign _ _ ha ih =>
    obtain ⟨w, htells⟩ := hs.tells ha
    exact Eq.trans htells ih
  | update _ ha ih =>
    obtain ⟨w, htells⟩ := hs.tells ha
    exact Eq.trans htells ih

theorem held_has (hs : Started s) (hj : Entitled j s) (hh : Answers.Held (s.received i) j h) :
    s.state.Has h.sub.subscriptionId := by
  obtain ⟨h₀, hhanded, hderived⟩ := hh
  rw [hs.derived_id hderived]
  cases hhanded with
  | given hgiven =>
    subst hgiven
    exact hj
  | added ha =>
    obtain ⟨w, htells⟩ := hs.tells ha
    exact htells
  | found ha =>
    obtain ⟨w, htells⟩ := hs.tells ha
    obtain ⟨hid, hhas⟩ := htells h₀ rfl
    rw [hid]
    exact hhas
  | listed ha hmem =>
    obtain ⟨w, htells⟩ := hs.tells ha
    exact htells h₀ hmem

theorem takes_starts (hs : Started s) (hj : Entitled j s) {item : RetryItem}
    (hitem : Answers.Takes (s.received i) j item) : item.Starts s := by
  cases hitem with
  | given hgiven =>
    subst hgiven
    exact hj
  | claimed ha hmem =>
    obtain ⟨w, htells⟩ := hs.tells ha
    exact htells item hmem

theorem passed_since (hs : Started s) {topic : String} {offset : Int}
    (hp : Answers.Passed (s.received i) j h topic offset) : Since s h.sub.subscriptionId topic offset := by
  obtain ⟨h₀, d, hderived, ha, hle⟩ := hp
  obtain ⟨w, htells⟩ := hs.tells ha
  rw [hs.derived_id hderived]
  exact Since.mono (htells topic) hle

/-- An offset that is due comes after the start. -/
theorem due_since (hs : Started s) (hj : Entitled j s) {topic : String} {o : Nat}
    (hd : Answers.Due (s.received i) j h topic o) : Since s h.sub.subscriptionId topic ((o : Int) - 1) := by
  cases hd with
  | beyond hpassed hlt => exact (hs.passed_since hpassed).mono (by omega)
  | @retried item h₀ hitem ha hderived htopic ho =>
    obtain ⟨w, htells⟩ := hs.tells ha
    rw [hs.derived_id hderived, (htells h₀ rfl).1, ← htopic]
    exact hs.takes_starts hj hitem o ho

theorem read_topic (hs : Started s) {name : String} {record : EventRecord}
    (hr : Answers.Read (s.received i) name record) : record.topic = name := by
  obtain ⟨from_, to_, limit, records, next, ha, hmem⟩ := hr
  obtain ⟨w, htells⟩ := hs.tells ha
  exact htells records next rfl record hmem

theorem configures_topic (hs : Started s) {name : String} {topic : Topic}
    (hc : Answers.Configures (s.received i) name topic) : TopicOf name topic s := by
  rcases hc with ha | ha
  · obtain ⟨w, htells⟩ := hs.tells ha
    exact htells topic rfl
  · obtain ⟨w, htells⟩ := hs.tells ha
    exact htells topic rfl

/-- An event that a task has reason to deliver comes after the start. -/
theorem delivers_since (hs : Started s) (hj : Entitled j s) {name : String} {record : EventRecord} {o : Nat}
    (hd : Answers.Delivers (s.received i) j h name record o) :
    Since s h.sub.subscriptionId record.topic ((o : Int) - 1) := by
  rw [hs.read_topic hd.read]
  exact hs.due_since hj hd.due

theorem delivers_afterStart (hs : Started s) (hj : Entitled j s) {name : String} {record : EventRecord} {o : Nat}
    (hd : Answers.Delivers (s.received i) j h name record o) :
    AfterStart s h.sub.subscriptionId record.topic record.cursor := by
  intro o' ho'
  rw [hd.offset] at ho'
  cases ho'
  exact hs.delivers_since hj hd

end Started

/-! ## What calls do to the world -/

section World

variable {o : Op} {c : Choice} {w w' : World} {r : o.Res}

/-- Calls keep the logs well formed. -/
theorem World.store_wf_exec (hwf : w.store.Wf) (hex : World.exec i o c w = some (r, w')) : w'.store.Wf := by
  cases o with
  | declareTopic topic =>
    cases hex
    exact hwf.declareTopic topic
  | append =>
    cases hex
    exact hwf.append _ _ _ _ _ _ _
  | compact topic =>
    cases hex
    exact hwf.compact _ topic
  | add sub offsets =>
    obtain ⟨-, rfl, rfl⟩ := World.add_of_exec hex
    exact hwf
  | enqueue item =>
    obtain ⟨-, rfl⟩ := World.enqueue_of_exec hex
    exact hwf
  | acquire id =>
    obtain ⟨-, rfl⟩ := World.acquire_of_exec hex
    exact hwf
  | _ =>
    cases hex
    exact hwf

/-- No call takes back a topic or an offset. -/
theorem World.store_grows_exec (hex : World.exec i o c w = some (r, w')) : w.store.Grows w'.store := by
  cases o with
  | declareTopic topic =>
    cases hex
    exact EventStore.grows_declareTopic _ _
  | append =>
    cases hex
    exact EventStore.grows_append _ _ _ _ _ _ _ _
  | compact topic =>
    cases hex
    exact EventStore.grows_compact _ _ _
  | add sub offsets =>
    obtain ⟨-, rfl, rfl⟩ := World.add_of_exec hex
    exact .refl _
  | enqueue item =>
    obtain ⟨-, rfl⟩ := World.enqueue_of_exec hex
    exact .refl _
  | acquire id =>
    obtain ⟨-, rfl⟩ := World.acquire_of_exec hex
    exact .refl _
  | _ =>
    cases hex
    exact .refl _

theorem SubscriptionStore.assign_positions (store : SubscriptionStore) (h : Handle) (e : Edit) :
    (store.assign h e).2.positions = store.positions := by
  unfold assign
  split
  · rfl
  · split <;> rfl

theorem SubscriptionStore.update_positions (store : SubscriptionStore) (h : Handle) :
    (store.update h).2.positions = store.positions := by
  unfold update
  split
  · rfl
  · split <;> rfl

/-- Positions are moved by two calls only. -/
theorem World.positions_exec (hex : World.exec i o c w = some (r, w')) :
    (∃ sub offsets, o = .add sub offsets) ∨ (∃ id topic offset, o = .setHighWater id topic offset) ∨
      (w'.subs.positions = w.subs.positions ∧ ∀ sub offsets, o ≠ .add sub offsets) := by
  cases o with
  | add sub offsets => exact .inl ⟨sub, offsets, rfl⟩
  | setHighWater id topic offset => exact .inr (.inl ⟨id, topic, offset, rfl⟩)
  | enqueue item =>
    obtain ⟨-, rfl⟩ := World.enqueue_of_exec hex
    exact .inr (.inr ⟨rfl, fun _ _ h => (by cases h)⟩)
  | acquire id =>
    obtain ⟨-, rfl⟩ := World.acquire_of_exec hex
    exact .inr (.inr ⟨rfl, fun _ _ h => (by cases h)⟩)
  | assign h e =>
    cases hex
    exact .inr (.inr ⟨SubscriptionStore.assign_positions _ _ _, fun _ _ h => (by cases h)⟩)
  | update h =>
    cases hex
    exact .inr (.inr ⟨SubscriptionStore.update_positions _ _, fun _ _ h => (by cases h)⟩)
  | _ =>
    cases hex
    exact .inr (.inr ⟨rfl, fun _ _ h => (by cases h)⟩)

/-- Items are queued by one call only; the others keep what holds of all of them. -/
theorem World.queue_exec {P : RetryItem → Prop} (hqueue : w.queue.All P)
    (henqueue : ∀ item, o = .enqueue item → P item)
    (hP : ∀ (item : RetryItem) t n e, P item → P { item with nextRetryAt := t, attempt := n, lastError := e })
    (hex : World.exec i o c w = some (r, w')) : w'.queue.All P := by
  cases o with
  | enqueue item =>
    obtain ⟨-, rfl⟩ := World.enqueue_of_exec hex
    exact hqueue.enqueue (henqueue item rfl)
  | claimDue now limit lease =>
    cases hex
    exact (hqueue.claimDue (fun item t h => hP item t item.attempt item.lastError h) now limit lease).2
  | complete retryId =>
    cases hex
    exact hqueue.complete retryId
  | reschedule retryId t n e =>
    cases hex
    exact hqueue.reschedule retryId fun item h => hP item t n e h
  | add sub offsets =>
    obtain ⟨-, rfl, rfl⟩ := World.add_of_exec hex
    exact hqueue
  | acquire id =>
    obtain ⟨-, rfl⟩ := World.acquire_of_exec hex
    exact hqueue
  | _ =>
    cases hex
    exact hqueue

/-- Topics are remembered by one call only. -/
theorem World.topics_exec (hex : World.exec i o c w = some (r, w')) :
    (∃ name topic, o = .cacheTopic name topic ∧ w'.topics = w.topics.set name topic) ∨ w'.topics = w.topics := by
  cases o with
  | cacheTopic name topic =>
    cases hex
    exact .inl ⟨name, topic, rfl, rfl⟩
  | add sub offsets =>
    obtain ⟨-, rfl, rfl⟩ := World.add_of_exec hex
    exact .inr rfl
  | enqueue item =>
    obtain ⟨-, rfl⟩ := World.enqueue_of_exec hex
    exact .inr rfl
  | acquire id =>
    obtain ⟨-, rfl⟩ := World.acquire_of_exec hex
    exact .inr rfl
  | _ =>
    cases hex
    exact .inr rfl

/-! An object in hand goes on standing for its subscription. -/

theorem World.Keyed.deref_id (hk : w.Keyed) (h : Handle) :
    (w.subs.deref h).sub.subscriptionId = h.sub.subscriptionId := by
  unfold SubscriptionStore.deref
  split
  · rfl
  · split
    · rename_i row hrow
      exact hk _ row hrow
    · rfl

theorem World.Keyed.assign_id (hk : w.Keyed) (h : Handle) (e : Edit) :
    (w.subs.assign h e).1.sub.subscriptionId = h.sub.subscriptionId := by
  unfold SubscriptionStore.assign
  split
  · exact (e.apply_alike h.sub).subscriptionId
  · split
    · rename_i row hrow
      exact (e.apply_alike row).subscriptionId.trans (hk _ row hrow)
    · exact (e.apply_alike h.sub).subscriptionId

theorem SubscriptionStore.update_id (store : SubscriptionStore) (h : Handle) :
    (store.update h).1.sub.subscriptionId = h.sub.subscriptionId := by
  unfold update
  split
  · rfl
  · split <;> rfl

end World

/-! ## One call -/

namespace Started

variable {o : Op} {c : Choice} {r : o.Res} {w : World}

/-- The subscription that a call adds. -/
theorem added_next_cases {p : Subscription × Dict String Int} (hp : p ∈ added (s.next i o r w).trace) :
    p ∈ added s.trace ∨ o = .add p.1 p.2 := by
  rw [Snapshot.next_trace, added_concat, List.mem_append, Option.mem_toList] at hp
  refine hp.imp_right fun hp => ?_
  cases o with
  | add sub offsets =>
    cases hp
    rfl
  | _ => cases hp

theorem continues_next (hs : Started s) (hex : World.exec i o c s.state = some (r, w)) :
    Continues s (s.next i o r w) where
  trace := ⟨_, rfl⟩
  rows := fun _ hid => (rowsGrow_exec hs.keyed hex).has hid
  added := by
    intro p hp
    refine (added_next_cases hp).imp_right fun ho => ?_
    subst ho
    obtain ⟨hnone, -, -⟩ := World.add_of_exec hex
    rintro ⟨row, hrow⟩
    rw [hnone] at hrow
    cases hrow
  store := World.store_grows_exec hex

/-- A position is the one of its start or a later one, wherever the call moves it. -/
theorem positions_next (hs : Started s) (hj : Entitled j s) (ho : (provenance cfg j (s.received i)).asks o)
    (hex : World.exec i o c s.state = some (r, w)) {p : Subscription × Dict String Int}
    (hp : p ∈ added (s.next i o r w).trace) (topic : String) :
    p.2.getD topic (-1) ≤ w.subs.position p.1.subscriptionId topic := by
  obtain ⟨sub, offsets, rfl⟩ | ⟨id, name, offset, rfl⟩ | ⟨hkept, hno⟩ := World.positions_exec hex
  · obtain ⟨hnone, -, rfl⟩ := World.add_of_exec hex
    rw [SubscriptionStore.position_add]
    rcases added_next_cases hp with hp | hadd
    · -- another subscription than the new one, which was not there
      have hne : p.1.subscriptionId ≠ sub.subscriptionId := by
        intro heq
        obtain ⟨row, hrow⟩ := hs.present p hp
        rw [heq, hnone] at hrow
        cases hrow
      rw [if_neg hne]
      exact hs.positions p hp topic
    · cases hadd
      rw [if_pos rfl]
  · have hold : p ∈ added s.trace := (added_next_cases hp).resolve_right (by simp)
    cases hex
    show _ ≤ (s.state.subs.setHighWater id name offset).position p.1.subscriptionId topic
    rw [SubscriptionStore.position_setHighWater]
    split
    · rename_i hat
      obtain ⟨hid, rfl⟩ := hat
      obtain ⟨h, hheld, hh, hreason⟩ := ho
      rcases hreason with ⟨d, ha, hlt⟩ | ⟨page, record, o, hd, rfl, rfl⟩
      · -- beyond the position that the task was told
        obtain ⟨before, htells⟩ := hs.tells ha
        exact Int.le_trans ((htells topic).start p hold hid) (Int.le_of_lt hlt)
      · have hsince := hs.delivers_since hj hd
        exact Int.le_trans (hsince.start p hold (hid.trans hh.symm)) (by omega)
    · exact hs.positions p hold topic
  · have hold : p ∈ added s.trace := (added_next_cases hp).resolve_right (hno _ _)
    rw [SubscriptionStore.position, SubscriptionStore.highWater, hkept]
    exact hs.positions p hold topic

/-- Items that are queued stand for what was due. -/
theorem queue_next (hs : Started s) (hj : Entitled j s) (ho : (provenance cfg j (s.received i)).asks o)
    (hex : World.exec i o c s.state = some (r, w)) : w.queue.All fun item => item.Starts (s.next i o r w) := by
  have hx : Continues s (s.next i o r w) := hs.continues_next hex
  refine World.queue_exec (fun id item hitem => (hs.queue id item hitem).continues hx) (fun item hitem => ?_)
    (fun item t n e h => h) hex
  subst hitem
  obtain ⟨-, -, h, name, record, offset, hd, hid, htopic, hcursor⟩ := ho
  have hafter := (hs.delivers_afterStart hj hd).continues hx
  rw [← hid, ← htopic, ← hcursor] at hafter
  exact hafter

/-- Topics are remembered as they were looked up. -/
theorem cache_next (hs : Started s) (ho : (provenance cfg j (s.received i)).asks o)
    (hex : World.exec i o c s.state = some (r, w)) {name : String} {topic : Topic}
    (h : w.topics.get? name = some topic) : TopicOf name topic (s.next i o r w) := by
  have hx : Continues s (s.next i o r w) := hs.continues_next hex
  obtain ⟨name', topic', rfl, hset⟩ | hkept := World.topics_exec hex
  · rw [hset, Dict.get?_set] at h
    split at h
    · rename_i hname
      cases h
      subst hname
      obtain ⟨before, htells⟩ := hs.tells ho
      exact (htells _ rfl).continues hx
    · exact (hs.cache name topic h).continues hx
  · rw [hkept] at h
    exact (hs.cache name topic h).continues hx

/-- What the answer of the call tells. -/
theorem tells_next (hs : Started s) (hj : Entitled j s) (ho : (provenance cfg j (s.received i)).asks o)
    (hex : World.exec i o c s.state = some (r, w)) : Entry.Tells (s.next i o r w) ⟨i, o, r, s.state⟩ := by
  have hx : Continues s (s.next i o r w) := hs.continues_next hex
  cases o with
  | highWater id =>
    cases hex
    obtain ⟨h, hheld, rfl⟩ := ho
    intro topic
    have hsince : Since s h.sub.subscriptionId topic (s.state.subs.position h.sub.subscriptionId topic) := by
      refine ⟨hs.held_has hj hheld, fun p hp hid => ?_⟩
      rw [← hid]
      exact hs.positions p hp topic
    exact hsince.continues hx
  | get id =>
    cases hex
    intro h hfound
    obtain ⟨row, hrow, rfl⟩ := Option.map_eq_some_iff.mp hfound
    exact ⟨hs.keyed id row hrow, row, hrow⟩
  | listAll =>
    cases hex
    intro h hmem
    exact ⟨_, (hs.keyed.listAll_held hmem).row⟩
  | add sub offsets =>
    obtain ⟨-, rfl, rfl⟩ := World.add_of_exec hex
    refine ⟨sub, ?_⟩
    show (s.state.subs.rows.set sub.subscriptionId sub).get? sub.subscriptionId = some sub
    rw [Dict.get?_set, if_pos rfl]
  | deref h =>
    cases hex
    exact hs.keyed.deref_id h
  | assign h e =>
    cases hex
    exact hs.keyed.assign_id h e
  | update h =>
    cases hex
    exact SubscriptionStore.update_id _ h
  | claimDue now limit lease =>
    cases hex
    have hclaimed := RetryQueue.All.claimDue (P := fun item => item.Starts s) hs.queue (fun _ _ h => h) now limit lease
    exact fun item hitem => (hclaimed.1 item hitem).continues hx
  | read topic from_ to_ limit =>
    cases hex
    intro records next hpage record hrecord
    obtain ⟨offset, -, hlies⟩ := hs.store.liesAt (EventStore.mem_events_of_read hs.store hpage hrecord)
    exact hlies.topic
  | getTopic name =>
    cases hex
    intro topic hfound
    simp only [EventStore.getTopic] at hfound
    split at hfound
    · cases hfound
    · rename_i log hlog
      cases hfound
      exact TopicOf.continues ⟨log, hlog, rfl⟩ hx
  | cachedTopic name =>
    cases hex
    intro topic hfound
    exact (hs.cache name topic hfound).continues hx
  | send sub record attempt frame =>
    obtain ⟨⟨h, name, offset, hd, rfl⟩, -⟩ := ho
    exact ⟨⟨offset, hd.offset⟩, (hs.delivers_afterStart hj hd).continues hx⟩
  | _ => trivial

/-- The calls that a task has reason to make keep positions and items beyond the starts. -/
theorem next (hs : Started s) (hj : Entitled j s) (ho : (provenance cfg j (s.received i)).asks o)
    (hex : World.exec i o c s.state = some (r, w)) : Started (s.next i o r w) where
  keyed := (rowsGrow_exec hs.keyed hex).keyed
  store := World.store_wf_exec hs.store hex
  cache := fun _ _ h => hs.cache_next ho hex h
  present := by
    intro p hp
    rcases added_next_cases hp with hp | hadd
    · exact (rowsGrow_exec hs.keyed hex).has (hs.present p hp)
    · subst hadd
      obtain ⟨-, rfl, rfl⟩ := World.add_of_exec hex
      exact hs.tells_next hj ho hex
  positions := fun _ hp topic => hs.positions_next hj ho hex hp topic
  queue := hs.queue_next hj ho hex
  told := by
    intro e he
    rcases List.mem_append.mp he with he | he
    · exact (hs.told e he).continues (hs.continues_next hex)
    · rw [List.mem_singleton.mp he]
      exact hs.tells_next hj ho hex

/-- Time, grants and restarts do nothing to positions, items and logs. -/
theorem passed (hs : Started s) (s' : Snapshot cfg fuel) (htrace : s'.trace = s.trace) (hsubs : s'.state.subs = s.state.subs)
    (hstore : s'.state.store = s.state.store) (hqueue : s'.state.queue = s.state.queue)
    (htopics : ∀ name topic, s'.state.topics.get? name = some topic → s.state.topics.get? name = some topic) :
    Started s' ∧ Continues s s' := by
  have hhas : ∀ id, s.state.Has id → s'.state.Has id := by
    rintro id ⟨row, hrow⟩
    exact ⟨row, by rw [hsubs]; exact hrow⟩
  have hx : Continues s s' := by
    refine ⟨⟨[], by rw [htrace, List.append_nil]⟩, hhas, fun p hp => ?_, ?_⟩
    · rw [htrace] at hp
      exact .inl hp
    · rw [hstore]
      exact .refl _
  refine ⟨⟨?_, ?_, ?_, ?_, ?_, ?_, ?_⟩, hx⟩
  · intro id row hrow
    rw [hsubs] at hrow
    exact hs.keyed id row hrow
  · rw [hstore]
    exact hs.store
  · intro name topic h
    exact (hs.cache name topic (htopics name topic h)).continues hx
  · intro p hp
    rw [htrace] at hp
    exact hhas _ (hs.present p hp)
  · intro p hp topic
    rw [htrace] at hp
    rw [hsubs]
    exact hs.positions p hp topic
  · rw [hqueue]
    exact fun id item hitem => (hs.queue id item hitem).continues hx
  · intro e he
    rw [htrace] at he
    exact (hs.told e he).continues hx

/-- A restart forgets what was looked up. -/
theorem restarted (hs : Started s) :
    Started (⟨s.state.restart, s.trace⟩ : Snapshot cfg fuel) ∧ Continues s (⟨s.state.restart, s.trace⟩ : Snapshot cfg fuel) :=
  hs.passed ⟨s.state.restart, s.trace⟩ rfl rfl rfl rfl fun _ _ h => (by cases h)

end Started

/-! ## Jobs -/

/-- The jobs of a publisher over its starts: what a task was told goes on being so. -/
def startsContract (cfg : PublisherConfig) (fuel : Nat) : Contract (sem cfg fuel).traced where
  inv s := Started s
  rely _ _ s s' := Continues s s'
  guar _ _ s s' := Continues s s'
  adm _ _ _ _ _ := True
  pre j s := Entitled j s
  peer _ _ := True
  post _ r s := ∀ v, r = .ok v → ∃ i, Answers.Returns (s.received i) cfg v

/-- A job that a task may fork is entitled to run. -/
theorem Started.forks (hs : Started s) (hj : Entitled j s) {j' : Job}
    (hjob : (provenance cfg j (s.received i)).jobs j') : Entitled j' s := by
  cases j' with
  | dispatchSubscription h topics => exact hs.held_has hj hjob
  | retryDelivery item => exact hjob.elim
  | _ => trivial

theorem startsContract_sound : (startsContract cfg fuel).Sound where
  rely_refl _ _ s := .refl s
  rely_trans h h' := h.trans h'
  env_rely := by
    intro e s s' he hs
    obtain ⟨w, hw, rfl⟩ := Option.map_eq_some_iff.mp he
    obtain ⟨clock, authorizer, -, rfl⟩ := World.env_cases hw
    obtain ⟨hs', hx⟩ := hs.passed ⟨{ s.state with clock := clock, authorizer := authorizer }, s.trace⟩
      rfl rfl rfl rfl fun _ _ h => h
    exact ⟨hs', fun _ _ => hx⟩
  peer_rely := fun _ _ _ _ hguar => hguar
  pre_stable := fun hpre hrely _ => hpre.continues hrely
  code_safe := by
    intro j i s hs hpre
    refine Safe.weaken (Prog.Upholds.safe_received (C := startsContract cfg fuel) (R := provenance cfg j)
      (Q := fun A => Answers.Returns A cfg) (fun h => h) (fun hrely _ _ hr => hrely.received hr)
      (fun hmoved hpre => hpre.continues (hmoved.elim id id)) ?_ ?_ (code cfg fuel j) hpre
      fun A _ => code_sourced cfg fuel j A) fun r s' hr v hv => ⟨i, hr v hv⟩
    · intro o c s r w hs hj ho _ hex
      exact ⟨hs.next hj ho hex, hs.continues_next hex⟩
    · intro j' s hs hj hjob
      exact ⟨hs.forks hj hjob, trivial⟩

/-! ## Runs -/

/-- What clients and workers may start: dispatch jobs are the publisher's own, and a retry is made of an
    item that some claim returned. -/
def ClientsCall (c : Run.Config cfg fuel) : Action (sem cfg fuel).traced → Prop
  | .start (.dispatchSubscription ..) => False
  | .start (.retryDelivery item) => ∃ e ∈ c.state.trace, item ∈ Entry.claimed e
  | _ => True

/-- The topic that an event names. -/
def eventTopic : Json → Option Json
  | .obj members => Json.member? "a2atopic" members
  | _ => none

theorem eventTopic_buildEvent (sub : Subscription) (record : EventRecord) (n : Nat) (schemaUrl : Option String) :
    eventTopic (buildEvent cfg sub record n schemaUrl) = some (.str record.topic) := by
  simp only [buildEvent, eventTopic]
  cases record.subject <;> simp [Json.member?]

/-- No subscription was sent an event of the topic from its start or before it, and no replay returned
    any event of the topic. -/
structure NoHistory (name : String) (c : Run.Config cfg fuel) : Prop where
  sent : ∀ e ∈ c.state.trace, ∀ sub record n frame, e.op = .send sub record n frame → record.topic = name →
    ∀ p ∈ added c.state.trace, p.1.subscriptionId = sub.subscriptionId →
      ∃ o : Nat, Cursor.offsetOf record.cursor = .ok o ∧ p.2.getD name (-1) < o
  returned : ∀ (i : Nat) id from_ to_ limit events next,
    c.tasks[i]? = some ⟨.replay id from_ to_ limit, .pure (.page events next)⟩ →
      ∀ event ∈ events, eventTopic event ≠ some (.str name)

section

variable {backend : Backend} {clock : Time} {authorizer : Option AllowlistAuthorizer} {a c : Run.Config cfg fuel}

theorem ClientsCall.admissible (a : Run.Config cfg fuel) (act : Action (sem cfg fuel).traced)
    (hok : ClientsCall a act) (hgood : (startsContract cfg fuel).Good a) :
    (startsContract cfg fuel).Admissible a act := by
  cases act with
  | start j =>
    cases j with
    | dispatchSubscription h topics => exact hok.elim
    | retryDelivery item =>
      obtain ⟨e, he, hitem⟩ := hok
      have htells := hgood.1.told e he
      obtain ⟨i, o, r, w⟩ := e
      cases o with
      | claimDue now limit lease => exact htells item hitem
      | _ => cases hitem
    | _ => trivial
  | task i ch => exact ⟨fun _ _ _ _ _ _ _ => trivial, fun _ _ _ _ _ _ => trivial⟩
  | env e => trivial
  | crash => exact hgood.1.restarted.1

theorem started_initial : (startsContract cfg fuel).Good (initial cfg fuel backend clock authorizer) := by
  refine ⟨⟨?_, ?_, ?_, ?_, ?_, ?_, ?_⟩, fun _ _ h => (by cases h)⟩
  · exact fun _ _ h => (by cases h)
  · exact fun _ _ h => (by cases h)
  · exact fun _ _ h => (by cases h)
  · exact fun _ h => (by cases h)
  · exact fun _ h => (by cases h)
  · exact fun _ _ h => (by cases h)
  · exact fun _ h => (by cases h)

/-- Topics go on being what they are. -/
theorem continues_of_run (hgood : (startsContract cfg fuel).Good a) (hrun : Config.Run ClientsCall a c) :
    Continues a.state c.state := by
  refine startsContract_sound.run_rel (R := Continues) ClientsCall.admissible (fun s => .refl s)
    (fun h h' => h.trans h') ?_ ?_ ?_ hgood hrun
  · exact fun _ _ hmoves => hmoves.guar
  · intro e s s' hs he
    exact (startsContract_sound.env_rely he hs).2 (.compact none) 0
  · intro s hs
    exact hs.restarted.2

/-- In any run, no subscription is sent an event from its start or before it, and a topic that may not be
    replayed is not. -/
theorem no_history (hrun : Config.Run ClientsCall (initial cfg fuel backend clock authorizer) c) {name : String}
    {log : TopicLog} (hlog : c.state.state.store.logs.get? name = some log) (hreplay : log.topic.replay = false) :
    NoHistory name c := by
  have hgood := startsContract_sound.good_run ClientsCall.admissible started_initial hrun
  constructor
  · intro e he sub record n frame ho htopic p hp hid
    have htells := hgood.1.told e he
    obtain ⟨i, o, r, w⟩ := e
    simp only at ho
    subst ho
    obtain ⟨⟨offset, hoffset⟩, hafter⟩ := htells
    have hle := (hafter offset hoffset).start p hp hid
    rw [htopic] at hle
    exact ⟨offset, hoffset, by omega⟩
  · intro i id from_ to_ limit events next hi event hevent hnamed
    -- the replay returned at some point of the run, when the topic was what it is now
    obtain ⟨b, hb, hpost, hrest⟩ := startsContract_sound.ended ClientsCall.admissible started_initial rfl hrun rfl hi rfl
    have hgoodb := startsContract_sound.good_run ClientsCall.admissible started_initial hb
    obtain ⟨k, hreturns⟩ := hpost _ rfl
    obtain ⟨sub, topic, topicModel, record, hconfigures, hmay, hread, rfl⟩ := hreturns event hevent
    rw [eventTopic_buildEvent, hgoodb.1.read_topic hread] at hnamed
    cases hnamed
    obtain ⟨log', hlog', htopic⟩ := (hgoodb.1.configures_topic hconfigures).continues (continues_of_run hgoodb hrest)
    rw [hlog] at hlog'
    cases hlog'
    rw [← htopic, hreplay] at hmay
    cases hmay

end

namespace Sample

/-- A topic that keeps no history for subscribers. -/
def unreplayed : Topic := { name := "t", replay := false }

/-- An event, a subscription, and another event that is sent to it. -/
def afterwards : List (Action (sem config 5).traced) :=
  call 0 (.declareTopic unreplayed) 1 ++ call 1 (.publish "t" "x" [] none) 2 ++ call 2 (.subscribe subscription) 8 ++
    call 3 (.publish "t" "x" [] none) 3 ++ List.replicate 9 (.task 4 {})

/-- Neither dispatch jobs nor single retries are started. -/
def startsNone (_ : Run.Config config 5) : Action (sem config 5).traced → Bool
  | .start (.dispatchSubscription ..) | .start (.retryDelivery _) => false
  | _ => true

theorem clientsCall_of_startsNone {c : Run.Config config 5} {act : Action (sem config 5).traced}
    (h : startsNone c act = true) : ClientsCall c act := by
  cases act with
  | start j =>
    cases j with
    | dispatchSubscription | retryDelivery => cases h
    | _ => trivial
  | _ => trivial

end Sample

/-- The event after the subscription is sent, the one before it is not. -/
theorem no_history_sample : ∃ c : Run.Config Sample.config 5,
    Config.Run ClientsCall (initial Sample.config 5 .live 0 none) c ∧ sends c.state.trace "sub_1" "t" = [(1, 1)] ∧
      NoHistory "t" c := by
  have hrun : ((initial Sample.config 5 .live 0 none).runsWith Sample.startsNone Sample.afterwards).any (fun c =>
      sends c.state.trace "sub_1" "t" = [(1, 1)] &&
        (c.state.state.store.logs.get? "t").any fun log => log.topic.replay = false) = true := by
    decide +kernel
  obtain ⟨c, hc, hp⟩ := Config.Run.of_any hrun
  rw [Bool.and_eq_true] at hp
  obtain ⟨log, hlog, hreplay⟩ := (Option.any_eq_true _ _).mp hp.2
  have hclients := hc.mono fun _ _ h => Sample.clientsCall_of_startsNone h
  exact ⟨c, hclients, of_decide_eq_true hp.1, no_history hclients hlog (of_decide_eq_true hreplay)⟩

end A2AEvents
