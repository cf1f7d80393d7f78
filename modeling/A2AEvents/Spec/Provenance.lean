import A2AEvents.ForStd.Protocol
import A2AEvents.Native.Publisher

/-!
# Where the arguments of calls come from

A task makes its calls with what earlier calls have told it: it writes back subscriptions that it
found, it sends events that stand on pages which it read, and it moves a position beyond the one that
it was told. None of this depends on what the answers were, so it is stated for every set of answers
that the task may have received.

## Key results

- `Answers.Delivers`: when a task has reason to deliver an event to a subscription
- `code_sourced`: every job makes its calls for a reason
-/

namespace A2AEvents

open Async Publisher

/-! ## Reasons -/

/-- The answers that a task has received. -/
abbrev Answers := (o : Op) → o.Res → Prop

namespace Answers

variable (A : Answers)

/-- The record stands on a page of the topic. -/
def Read (topic : String) (record : EventRecord) : Prop :=
  ∃ from_ to_ limit records next, A (.read topic from_ to_ limit) (.ok (records, next)) ∧ record ∈ records

/-- The topic was looked up. -/
def Configures (name : String) (topic : Topic) : Prop :=
  A (.cachedTopic name) (some topic) ∨ A (.getTopic name) (.ok topic)

variable (j : Job)

/-- Cursors that the task acks: the one it was given, and those of events it read. -/
inductive Acks (topic cursor : String) : Prop where
  | given {id : String} (hj : j = .ack id cursor) (htopic : Cursor.topicOf cursor = .ok topic)
  | delivered {name : String} {record : EventRecord} (hread : A.Read name record)
    (htopic : record.topic = topic) (hcursor : record.cursor = cursor)

/-- Assignments that the task makes to what it holds. -/
inductive Edits (h : Handle) : Edit → Prop where
  | expire (hactive : h.sub.status = .active) : Edits h (.status .expired)
  | delete {id : String} (hj : j = .delete id) : Edits h (.status .deleted)
  | lease {id : String} {lease : Int} (hj : j = .renew id lease) (t : Time) : Edits h (.leaseUntil t)
  | revive {id : String} {lease : Int} (hj : j = .renew id lease) : Edits h (.status .active)
  | ack {topic cursor : String} (hacks : A.Acks j topic cursor)
    (hnewer : isNewer cursor (h.sub.cursors.get? topic) = true) : Edits h (.cursor topic cursor)

/-- An object that the task has come to from another one. -/
inductive Derived (h : Handle) : Handle → Prop where
  | refl : Derived h h
  | deref {h₁ h₂ : Handle} (hd : Derived h h₁) (ha : A (.deref h₁) h₂) : Derived h h₂
  | assign {h₁ h₂ : Handle} {e : Edit} (hd : Derived h h₁) (he : A.Edits j h₁ e) (ha : A (.assign h₁ e) h₂) :
    Derived h h₂
  | update {h₁ h₂ : Handle} (hd : Derived h h₁) (ha : A (.update h₁) h₂) : Derived h h₂

/-- The objects that the task starts from. -/
inductive Handed (h : Handle) : Prop where
  | given {topics : Option (List String)} (hj : j = .dispatchSubscription h topics)
  | added {sub : Subscription} {offsets : Dict String Int} (ha : A (.add sub offsets) h)
  | found {id : String} (ha : A (.get id) (some h))
  | listed {hs : List Handle} (ha : A .listAll hs) (hmem : h ∈ hs)

/-- The objects in the hands of the task. -/
def Held (h : Handle) : Prop := ∃ h₀, A.Handed j h₀ ∧ A.Derived j h₀ h

/-- The items in the hands of the task. -/
inductive Takes (item : RetryItem) : Prop where
  | given (hj : j = .retryDelivery item)
  | claimed {now : Time} {limit lease : Int} {items : List RetryItem} (ha : A (.claimDue now limit lease) items)
    (hmem : item ∈ items)

/-- The task was told a position of the subscription that is no later than `offset`. -/
def Passed (h : Handle) (topic : String) (offset : Int) : Prop :=
  ∃ h₀ d, A.Derived j h₀ h ∧ A (.highWater h₀.sub.subscriptionId) d ∧ d.getD topic (-1) ≤ offset

/-- An offset of a topic is due for a subscription: it lies beyond the position that the task was told, or
    it is the one of an item. -/
inductive Due (h : Handle) (topic : String) (o : Nat) : Prop where
  | beyond {offset : Int} (hpassed : A.Passed j h topic offset) (hlt : offset < o)
  | retried {item : RetryItem} {h₀ : Handle} (hitem : A.Takes j item) (ha : A (.get item.subscriptionId) (some h₀))
    (hd : A.Derived j h₀ h) (htopic : item.topic = topic) (ho : Cursor.offsetOf item.cursor = .ok o)

/-- The event may be delivered to the subscription. -/
structure Delivers (h : Handle) (topic : String) (record : EventRecord) (o : Nat) : Prop where
  held : A.Held j h
  read : A.Read topic record
  offset : Cursor.offsetOf record.cursor = .ok o
  due : A.Due j h topic o

/-- Numbers of attempts: the first one and those up to the ceiling, and those after the number of an item. -/
inductive Counts (cfg : PublisherConfig) (n : Nat) : Prop where
  | within (hpos : 1 ≤ n) (hle : n = 1 ∨ (n : Int) ≤ cfg.maxAttempts)
  | next {item : RetryItem} (hitem : A.Takes j item) (hn : n = item.attempt + 1)

/-- The task sent the event to the subscription and was told the result. -/
def Sent (h : Handle) (record : EventRecord) (result : DeliveryResult) : Prop :=
  ∃ n frame, A (.send h.sub record n frame) (.ok result)

/-- Which attempt a task makes: the first one, one after another that failed, or one of an item. -/
inductive Tries (n : Nat) : Prop where
  | first (hn : n = 1)
  | again {h : Handle} {record : EventRecord} {result : DeliveryResult} (hsent : A.Sent h record result)
    (hfailed : result.ack = false)
  | retried {item : RetryItem} (hitem : A.Takes j item)

/-- The attempt that goes on record is one that the task made. -/
def Made (attempt : DeliveryAttempt) : Prop :=
  ∃ h record result, A.Sent h record result ∧ attempt.subscriptionId = h.sub.subscriptionId ∧
    attempt.eventId = record.eventId ∧ attempt.cursor = record.cursor

/-- The head of the topic, as the task looked it up. -/
inductive Head (topic : String) : Int → Prop where
  | empty (ha : A (.count topic) 0) : Head topic (-1)
  | latest {n o : Nat} {cursor : String} (ha : A (.count topic) n) (hn : n ≠ 0)
    (hcursor : A (.latestCursor topic) (.ok cursor)) (ho : Cursor.offsetOf cursor = .ok o) : Head topic o

/-- The task added the subscription, with the heads of its topics if it was asked to. -/
structure Subscribed (req : SubscribeRequest) (sub : Subscription) (offsets : Dict String Int) (h : Handle) : Prop where
  added : A (.add sub offsets) h
  selector : sub.selector = req.selector
  starts : ∀ name ∈ sub.topics, ∃ topic v, A.Configures name topic ∧ offsets.get? topic.name = some v ∧
    (req.fromCursor = Cursor.latest → A.Head topic.name v)

/-- The last page that the task read of the topic was empty. It was read from the position that the task
    was told, or from the oldest event. -/
def Drained (cfg : PublisherConfig) (h : Handle) (topic : String) : Prop :=
  ∃ d from_ next, A (.highWater h.sub.subscriptionId) d ∧ A (.read topic from_ none cfg.pageSize) (.ok ([], next)) ∧
    (cursorAt topic (d.getD topic (-1)) = .ok from_ ∨ from_ = none)

/-- What a dispatch has come to when it returns. -/
inductive Dispatched (cfg : PublisherConfig) (h : Handle) (topics : Option (List String)) : Prop where
  | idle {h₁ h₂ : Handle} (hd : A.Derived j h h₁) (ha : A (.deref h₁) h₂) (hidle : h₂.sub.status ≠ .active)
  | denied {h₁ : Handle} (hd : A.Derived j h h₁) (ha : A (.authorizeDelivery h₁) false)
  | drained {h₁ : Handle} (hd : A.Derived j h h₁)
    (hall : ∀ topic ∈ topics.getD h₁.sub.topics, ∃ h₂, A.Derived j h h₂ ∧ A.Drained cfg h₂ topic)

/-- What the task saw of the subscriptions that it listed. -/
structure Saw (listed seen : List Handle) : Prop where
  all : A .listAll listed
  each : ∀ h ∈ listed, ∃ h' ∈ seen, ∃ h₁, A.Derived j h h₁ ∧ A (.deref h₁) h'

end Answers

/-- The calls that a task has reason to make, and the dispatch jobs that it may fork. -/
def provenance (cfg : PublisherConfig) (j : Job) (A : Answers) : Protocol sig where
  asks := fun o => match o with
    | .append topic type _ data subject => j = .publish topic type data subject
    | .claimDue now limit lease => j = .runOnce now limit lease
    | .latestCursor topic => ∃ n, n ≠ 0 ∧ A (.count topic) n
    | .add sub offsets => sub.cursors = ∅ ∧
      (∀ name ∈ sub.topics, ∃ topic, A.Configures name topic ∧ (offsets.get? topic.name).isSome = true) ∧
      ∀ quota, cfg.maxSubscriptionsPerSubscriber = some quota → ∃ listed seen, A.Saw j listed seen ∧
        ((seen.filter fun h => h.sub.status ≠ .deleted).filter fun h =>
          h.sub.subscriberCardUrl = sub.subscriberCardUrl).length < quota
    | .update h => A.Held j h
    | .highWater id => ∃ h, A.Held j h ∧ h.sub.subscriptionId = id
    | .setHighWater id topic offset => ∃ h, A.Held j h ∧ h.sub.subscriptionId = id ∧
      ((∃ d, A (.highWater id) d ∧ d.getD topic (-1) < offset) ∨
        ∃ name record o, A.Delivers j h name record o ∧ record.topic = topic ∧ offset = o)
    | .recordAttempt attempt => A.Counts j cfg attempt.attempt ∧ A.Made attempt
    | .enqueue item => item.attempt = 1 ∧ 1 < cfg.maxAttempts ∧ ∃ h name record o, A.Delivers j h name record o ∧
      item.subscriptionId = h.sub.subscriptionId ∧ item.topic = record.topic ∧ item.cursor = record.cursor
    | .reschedule _ _ n _ => ∃ item, A.Takes j item ∧ n = item.attempt + 1 ∧ (n : Int) < cfg.maxAttempts
    | .send sub record n _ => (∃ h name o, A.Delivers j h name record o ∧ h.sub = sub) ∧ A.Tries j n
    | .cacheTopic name topic => A (.getTopic name) (.ok topic)
    | _ => True
  answers := A
  jobs := fun j' => match j' with
    | .dispatchSubscription h _ => A.Held j h
    | _ => False

section Programs

variable {cfg : PublisherConfig} {fuel : Nat} {j : Job} {A : Answers}

/-- The program makes its calls for a reason and returns values that satisfy `Q`. -/
abbrev Sourced (cfg : PublisherConfig) (j : Job) (A : Answers) {α : Type} (p : M α) (Q : α → Prop := fun _ => True) :
    Prop :=
  p.Upholds (provenance cfg j A) Q

theorem Answers.Derived.trans {a b c : Handle} (hab : A.Derived j a b) (hbc : A.Derived j b c) : A.Derived j a c := by
  induction hbc with
  | refl => exact hab
  | deref _ ha ih => exact .deref ih ha
  | assign _ he ha ih => exact .assign ih he ha
  | update _ ha ih => exact .update ih ha

theorem Answers.Handed.held {h : Handle} (hh : A.Handed j h) : A.Held j h := ⟨h, hh, .refl⟩

theorem Answers.Held.derived {h h' : Handle} (hh : A.Held j h) (hd : A.Derived j h h') : A.Held j h' := by
  obtain ⟨h₀, hhanded, hderived⟩ := hh
  exact ⟨h₀, hhanded, hderived.trans hd⟩

theorem Answers.Passed.derived {h h' : Handle} {topic : String} {offset : Int} (hp : A.Passed j h topic offset)
    (hd : A.Derived j h h') : A.Passed j h' topic offset := by
  obtain ⟨h₀, d, hderived, ha, hle⟩ := hp
  exact ⟨h₀, d, hderived.trans hd, ha, hle⟩

theorem Answers.Passed.mono {h : Handle} {topic : String} {offset later : Int} (hp : A.Passed j h topic offset)
    (hle : offset ≤ later) : A.Passed j h topic later := by
  obtain ⟨h₀, d, hderived, ha, hd⟩ := hp
  exact ⟨h₀, d, hderived, ha, Int.le_trans hd hle⟩

theorem Answers.Delivers.acks {h : Handle} {topic : String} {record : EventRecord} {o : Nat}
    (hd : A.Delivers j h topic record o) : A.Acks j record.topic record.cursor :=
  .delivered hd.read rfl rfl

/-! ## Looking subscriptions and topics up -/

theorem getTopic_sourced (name : String) : Sourced cfg j A (getTopic name) (A.Configures name) := by
  refine .call_bind trivial fun r hr => ?_
  cases r with
  | some topic => exact .pure (.inl hr)
  | none =>
    refine .call_bind trivial fun r hr => .bind (P := fun topic => A (.getTopic name) (.ok topic)) ?_ fun topic htopic =>
      .call_bind htopic fun _ _ => .pure (.inr htopic)
    exact .lift fun topic hok => hok ▸ hr

theorem expireAndPersist_sourced {h : Handle} (hh : A.Held j h) :
    Sourced cfg j A (expireAndPersist h) (A.Derived j h) := by
  have hdue : Sourced cfg j A (expireIfDue h) fun r => A.Derived j h r.2 := by
    refine .call_bind trivial fun h₁ hderef => .call_bind trivial fun now _ => ?_
    split
    · rename_i hlapsed
      exact .call_bind trivial fun h₂ hassign => .pure (.assign (.deref .refl hderef) (.expire hlapsed.1) hassign)
    · exact .pure (.deref .refl hderef)
  refine .bind hdue fun r hr => ?_
  obtain ⟨changed, h₁⟩ := r
  cases changed with
  | true => exact .call (hh.derived hr) fun h₂ hupdate => .update hr hupdate
  | false => exact .pure hr

theorem isActive_sourced {h : Handle} (hh : A.Held j h) : Sourced cfg j A (isActive h) fun r =>
    r.1 = decide (r.2.sub.status = .active) ∧ ∃ h₁, A.Derived j h h₁ ∧ A (.deref h₁) r.2 :=
  .bind (expireAndPersist_sourced hh) fun h₁ hd => .call_bind trivial fun _ ha => .pure ⟨rfl, h₁, hd, ha⟩

theorem getSubscription_sourced (id : String) :
    Sourced cfg j A (getSubscription id) (A.Held j) := by
  refine .call_bind trivial fun r hr => ?_
  cases r with
  | none => exact .lift fun _ hok => (by cases hok)
  | some h =>
    have hh : A.Held j h := Answers.Handed.held (.found hr)
    show Sourced cfg j A (if h.sub.status = .deleted then _ else _) _
    split
    · exact .lift fun _ hok => (by cases hok)
    · exact (expireAndPersist_sourced hh).weaken fun _ hd => hh.derived hd

theorem getActiveSubscription_sourced (id : String) :
    Sourced cfg j A (getActiveSubscription id) (A.Held j) := by
  refine .bind (getSubscription_sourced id) fun h hh => .call_bind trivial fun h₁ hderef => ?_
  split
  · exact .lift fun _ hok => (by cases hok)
  · exact .pure (hh.derived (.deref .refl hderef))

theorem listSubscriptions_sourced : Sourced cfg j A listSubscriptions fun hs => ∃ listed seen,
    A.Saw j listed seen ∧ hs = seen.filter fun h => h.sub.status ≠ .deleted := by
  have hexpire : ∀ hs : List Handle, (∀ h ∈ hs, A.Held j h) →
      Sourced cfg j A (expireAll hs) fun hs' => ∀ h ∈ hs, ∃ h' ∈ hs', A.Derived j h h' := by
    intro hs
    induction hs with
    | nil => exact fun _ => .pure fun _ hmem => (by cases hmem)
    | cons h rest ih =>
      intro hall
      refine .bind (expireAndPersist_sourced (hall h List.mem_cons_self)) fun h₁ hd =>
        .bind (ih fun h hmem => hall h (List.mem_cons_of_mem _ hmem)) fun hs' hds => .pure fun h' hmem => ?_
      rcases List.mem_cons.mp hmem with rfl | hmem
      · exact ⟨h₁, List.mem_cons_self, hd⟩
      · obtain ⟨h₂, hmem₂, hd₂⟩ := hds h' hmem
        exact ⟨h₂, List.mem_cons_of_mem _ hmem₂, hd₂⟩
  have hderef : ∀ hs : List Handle, Sourced cfg j A (derefAll hs) fun hs' => ∀ h ∈ hs, ∃ h' ∈ hs', A (.deref h) h' := by
    intro hs
    induction hs with
    | nil => exact .pure fun _ hmem => (by cases hmem)
    | cons h rest ih =>
      refine .call_bind trivial fun h₁ ha => .bind ih fun hs' has => .pure fun h' hmem => ?_
      rcases List.mem_cons.mp hmem with rfl | hmem
      · exact ⟨h₁, List.mem_cons_self, ha⟩
      · obtain ⟨h₂, hmem₂, ha₂⟩ := has h' hmem
        exact ⟨h₂, List.mem_cons_of_mem _ hmem₂, ha₂⟩
  refine .call_bind trivial fun listed hlisted => .bind (hexpire listed fun h hmem => ?_) fun current hcurrent =>
    .bind (hderef current) fun seen hseen => .pure ⟨listed, seen, ⟨hlisted, fun h hmem => ?_⟩, rfl⟩
  · exact Answers.Handed.held (.listed hlisted hmem)
  · obtain ⟨h₁, hmem₁, hd⟩ := hcurrent h hmem
    obtain ⟨h₂, hmem₂, ha⟩ := hseen h₁ hmem₁
    exact ⟨h₂, hmem₂, h₁, hd, ha⟩

/-- A record that is found stands on a page, and has the offset of the cursor. -/
theorem recordAt_sourced (topic cursor : String) : Sourced cfg j A (recordAt topic cursor) fun found =>
    ∀ record, found = some record → A.Read topic record ∧
      ∃ o, Cursor.offsetOf cursor = .ok o ∧ Cursor.offsetOf record.cursor = .ok o := by
  have hwith : ∀ {offset : Nat} {records : List EventRecord} {found : Option EventRecord},
      (∀ r ∈ records, A.Read topic r) → recordWith offset records = .ok found →
        ∀ record, found = some record → A.Read topic record ∧ Cursor.offsetOf record.cursor = .ok offset := by
    intro offset records found hall hok record hrecord
    cases records with
    | nil =>
      cases hok
      cases hrecord
    | cons first rest =>
      rw [recordWith] at hok
      cases ho : Cursor.offsetOf first.cursor with
      | error e => simp [ho, Except.map] at hok
      | ok o =>
        simp only [ho, Except.map, Except.ok.injEq] at hok
        rw [← hok] at hrecord
        split at hrecord
        · rename_i heq
          cases hrecord
          exact ⟨hall _ List.mem_cons_self, heq ▸ ho⟩
        · cases hrecord
  refine .bind (.lift fun _ hok => hok) fun offset hoffset => .bind (.lift fun _ _ => trivial) fun from_ _ =>
    .call_bind trivial fun page hpage => ?_
  have hpaged : ∀ {from_ to_ limit records next found}, A (.read topic from_ to_ limit) (.ok (records, next)) →
      recordWith offset records = .ok found → ∀ record, found = some record → A.Read topic record ∧
        ∃ o, Cursor.offsetOf cursor = .ok o ∧ Cursor.offsetOf record.cursor = .ok o := by
    intro from_ to_ limit records next found ha hok record hrecord
    obtain ⟨hread, ho⟩ := hwith (fun r hr => ⟨_, _, _, _, _, ha, hr⟩) hok record hrecord
    exact ⟨hread, offset, hoffset, ho⟩
  split
  · exact .lift fun found hok => hpaged hpage hok
  · split
    · exact .pure fun _ hnone => (by cases hnone)
    · -- the predecessor aged out: the event may be the oldest one left
      refine .call_bind trivial fun page hpage => ?_
      split
      · exact .lift fun found hok => hpaged hpage hok
      · exact .pure fun _ hnone => (by cases hnone)
      · exact .lift fun _ hok => (by cases hok)
  · exact .lift fun _ hok => (by cases hok)

theorem headOffset_sourced (topic : String) : Sourced cfg j A (headOffset topic) (A.Head topic) := by
  refine .call_bind trivial fun n hn => ?_
  split
  · rename_i hzero
    exact .pure (.empty (hzero ▸ hn))
  · rename_i hpos
    refine .call_bind ⟨n, hpos, hn⟩ fun r hr => .bind (P := fun c => A (.latestCursor topic) (.ok c)) (.lift fun c hok => ?_)
      fun c hc => .bind (.lift fun _ hok => hok) fun o ho => .pure (.latest hn hpos hc ho)
    exact hok ▸ hr

theorem startOffset_sourced (topic fromCursor : String) : Sourced cfg j A (startOffset topic fromCursor) fun v =>
    fromCursor = Cursor.latest → A.Head topic v := by
  unfold startOffset
  split
  · rename_i hearliest
    refine .pure fun hlatest => ?_
    rw [hearliest] at hlatest
    exact absurd hlatest (by decide)
  split
  · exact (headOffset_sourced topic).weaken fun _ hv _ => hv
  rename_i hlatest
  refine Prog.Upholds.weaken (P := fun _ => True) ?_ fun _ _ heq => absurd heq hlatest
  refine .bind (.lift fun _ _ => trivial) fun cursorTopic _ => ?_
  split
  · exact .call_bind trivial fun _ _ => .bind (.lift fun _ _ => trivial) fun _ _ =>
      .bind (.lift fun _ _ => trivial) fun _ _ => .pure trivial
  · exact (headOffset_sourced topic).weaken fun _ _ => trivial

/-! ## Deliveries -/

section Deliveries

variable {h : Handle} {topic : String} {record : EventRecord} {o : Nat}

theorem attemptSend_sourced (hd : A.Delivers j h topic record o) {n : Nat} (hn : A.Tries j n) :
    Sourced cfg j A (attemptSend cfg h record n) (A.Sent h record) :=
  .bind (getTopic_sourced _) fun _ _ => .bind (.lift fun _ _ => trivial) fun _ _ => .call_bind trivial fun _ _ =>
    .call_bind ⟨⟨h, topic, o, hd, rfl⟩, hn⟩ fun _ hr => .lift fun _ hok => ⟨n, _, hok ▸ hr⟩

theorem recordAttempt_sourced {n : Nat} (hn : A.Counts j cfg n) (status : AttemptStatus) {result : DeliveryResult}
    (hsent : A.Sent h record result) : Sourced cfg j A (recordAttempt h record n status result) :=
  .call_bind trivial fun _ _ => .call ⟨hn, h, record, result, hsent, rfl, rfl, rfl⟩ fun _ _ => trivial

theorem raiseHighWater_sourced (hh : A.Held j h) (topic : String) (offset : Int) :
    Sourced cfg j A (raiseHighWater h.sub.subscriptionId topic offset) := by
  refine .call_bind ⟨h, hh, rfl⟩ fun d hd => ?_
  split
  · rename_i hgt
    exact .call ⟨h, hh, rfl, .inl ⟨d, hd, hgt⟩⟩ fun _ _ => trivial
  · exact .pure trivial

theorem advance_sourced {cursor : String} (eventId : Option String) (hh : A.Held j h) (hacks : A.Acks j topic cursor) :
    Sourced cfg j A (advance h topic cursor eventId) (A.Derived j h) := by
  have hcursor : Sourced cfg j A (advanceCursor h topic cursor) (A.Derived j h) := by
    refine .call_bind trivial fun h₁ hderef => ?_
    split
    · rename_i hnewer
      refine .call_bind trivial fun h₂ hassign => ?_
      have hd : A.Derived j h h₂ := .assign (.deref .refl hderef) (.ack hacks hnewer) hassign
      exact .call (hh.derived hd) fun _ hupdate => .update hd hupdate
    · exact .pure (.deref .refl hderef)
  refine .bind hcursor fun h₁ hd => .bind (.lift fun _ _ => trivial) fun offset _ =>
    .bind (raiseHighWater_sourced (hh.derived hd) _ _) fun _ _ => .bind (P := fun _ => True) ?_ fun eventId _ =>
    .bind (P := fun _ => True) ?_ fun _ _ => .pure hd
  · cases eventId with
    | some e => exact .pure trivial
    | none => exact .bind (recordAt_sourced _ _) fun _ _ => .pure trivial
  · cases eventId with
    | some e => exact .call trivial fun _ _ => trivial
    | none => exact .pure trivial

theorem onDelivered_sourced (hd : A.Delivers j h topic record o) {n : Nat} (hn : A.Counts j cfg n)
    {result : DeliveryResult} (hsent : A.Sent h record result) :
    Sourced cfg j A (onDelivered h record n result) (A.Derived j h) :=
  .bind (recordAttempt_sourced hn _ hsent) fun _ _ => advance_sourced _ hd.held hd.acks

theorem onTerminal_sourced (hd : A.Delivers j h topic record o) {n : Nat} (hn : A.Counts j cfg n)
    {result : DeliveryResult} (hsent : A.Sent h record result) : Sourced cfg j A (onTerminal h record n result) := by
  refine .bind (recordAttempt_sourced hn _ hsent) fun _ _ =>
    .bind (P := fun offset => offset = o) (.lift fun offset hok => ?_) fun offset heq => ?_
  · rw [hd.offset] at hok
    cases hok
    rfl
  · subst heq
    exact .call ⟨h, hd.held, rfl, .inr ⟨topic, record, offset, hd, rfl, rfl⟩⟩ fun _ _ => trivial

/-- The first attempt is number one; a retry is queued only if a second one is allowed. -/
theorem deliverQueued_sourced (hd : A.Delivers j h topic record o) :
    Sourced cfg j A (deliverQueued cfg h record) (A.Derived j h) := by
  have hone : A.Counts j cfg 1 := .within (Nat.le_refl 1) (.inl rfl)
  refine .bind (attemptSend_sourced hd (.first rfl)) fun result hsent => ?_
  split
  · exact onDelivered_sourced hd hone hsent
  split
  · exact .bind (onTerminal_sourced hd hone hsent) fun _ _ => .pure .refl
  · rename_i hgoes
    have hmax : 1 < cfg.maxAttempts := by
      simp only [Bool.or_eq_true, decide_eq_true_eq, not_or] at hgoes
      omega
    refine .bind (recordAttempt_sourced hone _ hsent) fun _ _ => .call_bind trivial fun _ _ =>
      .call_bind trivial fun _ _ => .bind (.lift fun _ _ => trivial) fun _ _ =>
      .call_bind ⟨rfl, hmax, h, topic, record, o, hd, rfl, rfl, rfl⟩ fun _ _ =>
      .bind (P := fun offset => offset = o) (.lift fun offset hok => ?_) fun offset heq => ?_
    · rw [hd.offset] at hok
      cases hok
      rfl
    · subst heq
      exact .call_bind ⟨h, hd.held, rfl, .inr ⟨topic, record, offset, hd, rfl, rfl⟩⟩ fun _ _ => .pure .refl

/-- The attempts of the inline loop go up to the ceiling. -/
theorem deliverInline_sourced (hd : A.Delivers j h topic record o) (remaining : Nat) :
    ∀ {n : Nat}, 1 ≤ n → (n : Int) + remaining ≤ cfg.maxAttempts + 1 → A.Tries j n →
      Sourced cfg j A (deliverInline cfg h record n remaining) (A.Derived j h) := by
  induction remaining with
  | zero => exact fun _ _ _ => .pure .refl
  | succ remaining ih =>
    intro n hpos hle htries
    have hn : A.Counts j cfg n := .within hpos (.inr (by omega))
    refine .bind (attemptSend_sourced hd htries) fun result hsent => ?_
    split
    · exact onDelivered_sourced hd hn hsent
    rename_i hfailed
    split
    · exact .bind (onTerminal_sourced hd hn hsent) fun _ _ => .pure .refl
    · exact .bind (recordAttempt_sourced hn _ hsent) fun _ _ => .bind (.lift fun _ _ => trivial) fun _ _ =>
        .call_bind trivial fun _ _ => ih (by omega) (by omega) (.again hsent (by simpa using hfailed))

theorem deliverOne_sourced (hd : A.Delivers j h topic record o) :
    Sourced cfg j A (deliverOne cfg h record) (A.Derived j h) := by
  unfold deliverOne
  split
  · exact deliverQueued_sourced hd
  · cases hmax : cfg.maxAttempts.toNat with
    | zero => exact .pure .refl
    | succ remaining =>
      exact deliverInline_sourced hd _ (Nat.le_refl 1) (by omega) (.first rfl)

/-- A retry delivers the event of its item, with the next number. -/
theorem retryDelivery_sourced {item : RetryItem} (hitem : A.Takes j item) :
    Sourced cfg j A (retryDelivery cfg item) := by
  have hn : A.Counts j cfg (item.attempt + 1) := .next hitem rfl
  refine .call_bind trivial fun r hr => ?_
  cases r with
  | none => exact .call trivial fun _ _ => trivial
  | some h =>
    show Sourced cfg j A (if h.sub.status ≠ .active then _ else _)
    split
    · exact .call trivial fun _ _ => trivial
    refine .bind (recordAt_sourced _ _) fun found hfound => ?_
    cases found with
    | none => exact .call trivial fun _ _ => trivial
    | some record =>
      obtain ⟨hread, o, ho, hoffset⟩ := hfound record rfl
      have hd : A.Delivers j h item.topic record o :=
        ⟨Answers.Handed.held (.found hr), hread, hoffset, .retried hitem hr .refl rfl ho⟩
      refine .bind (attemptSend_sourced hd (.retried hitem)) fun result hsent => ?_
      split
      · exact .bind (onDelivered_sourced hd hn hsent) fun _ _ => .call trivial fun _ _ => trivial
      split
      · exact .bind (onTerminal_sourced hd hn hsent) fun _ _ => .call trivial fun _ _ => trivial
      · rename_i hgoes
        have hmax : ((item.attempt + 1 : Nat) : Int) < cfg.maxAttempts := by
          simp only [Bool.or_eq_true, decide_eq_true_eq, not_or] at hgoes
          omega
        exact .bind (recordAttempt_sourced hn _ hsent) fun _ _ => .call_bind trivial fun _ _ =>
          .bind (.lift fun _ _ => trivial) fun _ _ => .call ⟨item, hitem, rfl, hmax⟩ fun _ _ => trivial

/-- A pass retries what it claimed. -/
theorem runOnce_sourced (now : Time) (batch lease : Int) (hj : j = .runOnce now batch lease) :
    Sourced cfg j A (runOnce cfg now batch lease) := by
  have hall : ∀ items : List RetryItem, (∀ item ∈ items, A.Takes j item) → Sourced cfg j A (retryAll cfg items) := by
    intro items
    induction items with
    | nil => exact fun _ => .pure trivial
    | cons item rest ih =>
      intro hitems
      exact .bind (retryDelivery_sourced (hitems item List.mem_cons_self)) fun _ _ =>
        ih fun item hitem => hitems item (List.mem_cons_of_mem _ hitem)
  exact .call_bind hj fun items hclaimed => .bind (hall items fun _ hmem => .claimed hclaimed hmem) fun _ _ =>
    .pure trivial

end Deliveries

/-! ## Catching up -/

section Dispatch

/-- A scan goes on from an offset that the task has passed. -/
theorem scanPage_sourced (topicModel : Topic) {topic : String} (records : List EventRecord)
    (hread : ∀ r ∈ records, A.Read topic r) :
    ∀ (scan : Int) (processed : Nat) (h : Handle), A.Held j h → A.Passed j h topic scan →
      Sourced cfg j A (scanPage cfg topicModel scan processed h records) fun r => A.Derived j h r.2.2 := by
  induction records with
  | nil => exact fun _ _ _ _ _ => .pure .refl
  | cons record rest ih =>
    intro scan processed h hh hpassed
    have hrest := ih fun r hr => hread r (List.mem_cons_of_mem _ hr)
    refine .bind (.lift fun _ hok => hok) fun offset hoffset => ?_
    split
    · exact hrest _ _ _ hh hpassed
    · rename_i hgt
      have hlt : scan < offset := by omega
      have hd : A.Delivers j h topic record offset :=
        ⟨hh, hread record List.mem_cons_self, hoffset, .beyond hpassed hlt⟩
      refine .bind (.lift fun _ _ => trivial) fun matched _ => .bind (P := A.Derived j h) ?_ fun h₁ hd₁ =>
        (hrest _ _ h₁ (hh.derived hd₁) ((hpassed.derived hd₁).mono (Int.le_of_lt hlt))).weaken fun _ hd₂ =>
          hd₁.trans hd₂
      split
      · exact deliverOne_sourced hd
      · exact .pure .refl

/-- A page that is empty is what a read of the topic returned. -/
theorem readPage_sourced (topic : String) (from_ : Option String) :
    Sourced cfg j A (readPage cfg topic from_) fun records => (∀ r ∈ records, A.Read topic r) ∧
      (records = [] → ∃ from' next, A (.read topic from' none cfg.pageSize) (.ok ([], next)) ∧
        (from' = from_ ∨ from' = none)) := by
  refine .call_bind trivial fun page hpage => ?_
  split
  · rename_i records next
    refine .pure ⟨fun r hr => ⟨_, _, _, _, _, hpage, hr⟩, ?_⟩
    rintro rfl
    exact ⟨from_, next, hpage, .inl rfl⟩
  · split
    · refine .call_bind trivial fun page hpage => .bind (.lift fun found hok => ?_) fun found hfound => .pure hfound
      obtain ⟨records, next⟩ := found
      rw [hok] at hpage
      refine ⟨fun r hr => ⟨_, _, _, _, _, hpage, hr⟩, ?_⟩
      rintro rfl
      exact ⟨none, next, hpage, .inr rfl⟩
    · exact .lift fun _ hok => (by cases hok)

/-- The loop ends with an empty page. -/
theorem catchUp_sourced (topic : String) {h : Handle} (hh : A.Held j h) :
    Sourced cfg j A (catchUp cfg fuel h topic) fun r => A.Derived j h r.2 ∧ A.Drained cfg r.2 topic := by
  have hpages : ∀ (topicModel : Topic) (fuel processed : Nat) (h : Handle), A.Held j h →
      Sourced cfg j A (catchUpPages cfg topicModel topic processed h fuel) fun r =>
        A.Derived j h r.2 ∧ A.Drained cfg r.2 topic := by
    intro topicModel fuel
    induction fuel with
    | zero => exact fun _ _ _ => .diverge
    | succ fuel ih =>
      intro processed h hh
      refine .call_bind ⟨h, hh, rfl⟩ fun d hd => .bind (.lift fun _ hok => hok) fun from_ hfrom =>
        .bind (readPage_sourced topic _) fun records hpage => ?_
      obtain ⟨hread, hempty⟩ := hpage
      have hpassed : A.Passed j h topic (d.getD topic (-1)) := ⟨h, d, .refl, hd, Int.le_refl _⟩
      split
      · rename_i hnone
        obtain ⟨from', next, ha, hfrom'⟩ := hempty (List.isEmpty_iff.mp hnone)
        refine .pure ⟨.refl, d, from', next, hd, ha, hfrom'.imp_left fun heq => ?_⟩
        rw [heq]
        exact hfrom
      · refine .bind (scanPage_sourced topicModel records hread _ _ _ hh hpassed) fun r hr => ?_
        exact .bind (raiseHighWater_sourced (hh.derived hr) _ _) fun _ _ =>
          (ih _ _ (hh.derived hr)).weaken fun _ hdone => ⟨hr.trans hdone.1, hdone.2⟩
  exact .bind (getTopic_sourced topic) fun topicModel _ => hpages topicModel _ _ _ hh

theorem catchUpAll_sourced (names : List String) :
    ∀ (processed : Nat) (h : Handle), A.Held j h → Sourced cfg j A (catchUpAll cfg fuel processed h names) fun _ =>
      ∀ topic ∈ names, ∃ h', A.Derived j h h' ∧ A.Drained cfg h' topic := by
  induction names with
  | nil => exact fun _ _ _ => .pure fun _ hmem => (by cases hmem)
  | cons name rest ih =>
    intro processed h hh
    refine .bind (catchUp_sourced name hh) fun r hr => (ih _ r.2 (hh.derived hr.1)).weaken fun _ hrest topic hmem => ?_
    rcases List.mem_cons.mp hmem with rfl | hmem
    · exact ⟨r.2, hr⟩
    · obtain ⟨h', hd, hdrained⟩ := hrest topic hmem
      exact ⟨h', hr.1.trans hd, hdrained⟩

theorem dispatchSubscription_sourced {h : Handle} (hh : A.Held j h) (topics : Option (List String)) :
    Sourced cfg j A (dispatchSubscription cfg fuel h topics) fun _ => A.Dispatched j cfg h topics := by
  refine .bind (isActive_sourced hh) fun r hr => ?_
  obtain ⟨active, h₂⟩ := r
  obtain ⟨hactive, h₁, hd, ha⟩ := hr
  have hd₂ : A.Derived j h h₂ := .deref hd ha
  show Sourced cfg j A (if (!active) = true then _ else _) _
  split
  · rename_i hidle
    refine .pure (.idle hd ha fun hstatus => ?_)
    simp only at hactive
    rw [hactive, decide_eq_true hstatus] at hidle
    cases hidle
  · refine .call_bind trivial fun authorized hauthorized => ?_
    split
    · rename_i hdenied
      have hfalse : authorized = false := by simpa using hdenied
      exact .pure (.denied hd₂ (hfalse ▸ hauthorized))
    · refine .call_bind trivial fun _ _ => .bind (catchUpAll_sourced _ _ _ (hh.derived hd₂)).attempt fun r hr =>
        .call_bind trivial fun _ _ => .lift fun n hok => .drained hd₂ fun topic hmem => ?_
      obtain ⟨h', hd', hdrained⟩ := hr n hok topic hmem
      exact ⟨h', hd₂.trans hd', hdrained⟩

/-- Listed subscriptions are handed to the dispatch jobs. -/
theorem gatherDispatch_sourced {hs : List Handle} (hall : ∀ h ∈ hs, A.Held j h) (topics : Option (List String)) :
    Sourced cfg j A (gatherDispatch hs topics) := by
  apply Prog.Upholds.fork
  · intro j' hj'
    obtain ⟨h, hmem, rfl⟩ := List.mem_map.mp hj'
    exact hall h hmem
  · exact fun ids => .join fun r => .lift fun _ _ => trivial

theorem publish_sourced (topic type : String) (data : List (String × Json)) (subject : Option String)
    (hj : j = .publish topic type data subject) : Sourced cfg j A (publish cfg topic type data subject) := by
  refine .call_bind hj fun _ _ => .bind (.lift fun _ _ => trivial) fun _ _ =>
    .bind (P := fun _ => True) ?_ fun _ _ => .pure trivial
  split
  · refine .call_bind trivial fun hs hlisted => .bind (gatherDispatch_sourced (fun h hmem => ?_) _) fun _ _ =>
      .pure trivial
    exact Answers.Handed.held (.listed hlisted (List.mem_of_mem_filter hmem))
  · exact .pure trivial

theorem dispatchPending_sourced : Sourced cfg j A dispatchPending := by
  refine .call_bind trivial fun hs hlisted => .bind (gatherDispatch_sourced (fun h hmem => ?_) _) fun _ _ =>
    .pure trivial
  exact Answers.Handed.held (.listed hlisted (List.mem_of_mem_filter hmem))

end Dispatch

/-! ## Calls -/

section Calls

theorem getTopics_sourced (names : List String) :
    Sourced cfg j A (getTopics names) fun models => ∀ name ∈ names, ∃ topic ∈ models, A.Configures name topic := by
  induction names with
  | nil => exact .pure fun _ hmem => (by cases hmem)
  | cons name rest ih =>
    refine .bind (getTopic_sourced name) fun topic htopic => .bind ih fun models hmodels => .pure fun name' hmem => ?_
    rcases List.mem_cons.mp hmem with rfl | hmem
    · exact ⟨topic, List.mem_cons_self, htopic⟩
    · obtain ⟨topic', hmem', htopic'⟩ := hmodels name' hmem
      exact ⟨topic', List.mem_cons_of_mem _ hmem', htopic'⟩

/-- Every topic gets a start offset. -/
theorem startOffsets_sourced (fromCursor : String) (models : List Topic) :
    ∀ acc : Dict String Int, Sourced cfg j A (startOffsets fromCursor acc models) fun offsets =>
      (∀ name, (acc.get? name).isSome = true → (offsets.get? name).isSome = true) ∧
        (∀ topic ∈ models, (offsets.get? topic.name).isSome = true) ∧
        (fromCursor = Cursor.latest → ∀ name v, offsets.get? name = some v → acc.get? name = some v ∨ A.Head name v) := by
  induction models with
  | nil => exact fun acc => .pure ⟨fun _ h => h, (fun _ h => (by cases h)), fun _ _ _ hv => .inl hv⟩
  | cons topic rest ih =>
    intro acc
    refine .bind (startOffset_sourced topic.name fromCursor) fun offset hoffset =>
      (ih _).weaken fun offsets hoffsets => ?_
    obtain ⟨hkept, hrest, hheads⟩ := hoffsets
    have hset : ∀ name, (acc.get? name).isSome = true ∨ name = topic.name →
        ((acc.set topic.name offset).get? name).isSome = true := by
      intro name hname
      rw [Dict.get?_set]
      split
      · rfl
      · rename_i hne
        exact hname.resolve_right hne
    refine ⟨fun name hname => hkept name (hset name (.inl hname)), fun t ht => ?_, fun hlatest name v hv => ?_⟩
    · rcases List.mem_cons.mp ht with rfl | ht
      · exact hkept _ (hset _ (.inr rfl))
      · exact hrest t ht
    · rcases hheads hlatest name v hv with hacc | hhead
      · rw [Dict.get?_set] at hacc
        split at hacc
        · rename_i hname
          cases hacc
          exact .inr (hname ▸ hoffset hlatest)
        · exact .inl hacc
      · exact .inr hhead

/-- A subscriber below the quota was seen below it. -/
theorem checkSubscriptionQuota_sourced (url : String) : Sourced cfg j A (checkSubscriptionQuota cfg url) fun _ =>
    ∀ quota, cfg.maxSubscriptionsPerSubscriber = some quota → ∃ listed seen, A.Saw j listed seen ∧
      ((seen.filter fun h => h.sub.status ≠ .deleted).filter fun h => h.sub.subscriberCardUrl = url).length < quota := by
  unfold checkSubscriptionQuota
  split
  · rename_i hnone
    refine .pure fun quota hsome => ?_
    rw [hnone] at hsome
    cases hsome
  · rename_i quota hquota
    refine .bind listSubscriptions_sourced fun hs hhs => ?_
    obtain ⟨listed, seen, hsaw, rfl⟩ := hhs
    show Sourced cfg j A (if _ then _ else _) _
    split
    · exact .lift fun _ hok => (by cases hok)
    · rename_i hlt
      refine .pure fun quota' hquota' => ⟨listed, seen, hsaw, ?_⟩
      rw [hquota] at hquota'
      cases hquota'
      omega

theorem checkSubscribe_sourced (req : SubscribeRequest) (topics : List String) :
    Sourced cfg j A (checkSubscribe cfg req topics) fun r => (∀ name ∈ topics, ∃ topic ∈ r.2, A.Configures name topic) ∧
      ∀ quota, cfg.maxSubscriptionsPerSubscriber = some quota → ∃ listed seen, A.Saw j listed seen ∧
        ((seen.filter fun h => h.sub.status ≠ .deleted).filter fun h =>
          h.sub.subscriberCardUrl = req.subscriberCardUrl).length < quota := by
  refine .bind (P := fun _ => True) ?_ fun _ _ => .bind (P := fun _ => True) ?_ fun _ _ =>
    .call_bind trivial fun _ _ => .bind (.lift fun _ _ => trivial) fun _ _ =>
    .bind (checkSubscriptionQuota_sourced req.subscriberCardUrl) fun _ hquota =>
    .bind (.lift fun _ _ => trivial) fun _ _ => .bind (.lift fun _ _ => trivial) fun _ _ =>
    .bind (.lift fun _ _ => trivial) fun _ _ => .bind (getTopics_sourced topics) fun _ htopics =>
    .bind (.lift fun _ _ => trivial) fun _ _ => .pure ⟨htopics, hquota⟩
  · split
    · exact .call_bind trivial fun _ _ => .lift fun _ _ => trivial
    · exact .pure trivial
  · split
    · exact .lift fun _ _ => trivial
    · exact .pure trivial

theorem subscribe_sourced (req : SubscribeRequest) : Sourced cfg j A (subscribe cfg fuel req) fun sub =>
    ∃ sub₀ offsets h h', A.Subscribed req sub₀ offsets h ∧ A (.deref h) h' ∧ h'.sub = sub := by
  refine .bind (.lift fun _ _ => trivial) fun _ _ => .bind (checkSubscribe_sourced req _) fun r hr => ?_
  obtain ⟨resolved, models⟩ := r
  obtain ⟨htopics, hquota⟩ := hr
  refine .call_bind trivial fun _ _ => .call_bind trivial fun _ _ => .bind (startOffsets_sourced _ _ _) fun offsets hoffsets =>
    .call_bind ⟨rfl, fun name hname => ?_, hquota⟩ fun h hadded => .bind (P := fun _ => True) ?_ fun _ _ =>
    .call_bind trivial fun h' hderef => .pure ⟨_, offsets, h, h', ⟨hadded, rfl, fun name hname => ?_⟩, hderef, rfl⟩
  · obtain ⟨topic, hmem, hconfigures⟩ := htopics name hname
    exact ⟨topic, hconfigures, hoffsets.2.1 topic hmem⟩
  · split
    · exact .bind (dispatchSubscription_sourced (Answers.Handed.held (.added hadded)) none) fun _ _ => .pure trivial
    · exact .pure trivial
  · obtain ⟨topic, hmem, hconfigures⟩ := htopics name hname
    obtain ⟨v, hv⟩ := Option.isSome_iff_exists.mp (hoffsets.2.1 topic hmem)
    refine ⟨topic, v, hconfigures, hv, fun hlatest => ?_⟩
    rcases hoffsets.2.2 hlatest _ _ hv with hnone | hhead
    · cases hnone
    · exact hhead

theorem renew_sourced (id : String) (lease : Int) (hj : j = .renew id lease) :
    Sourced cfg j A (renew cfg id lease) := by
  refine .bind (.lift fun _ _ => trivial) fun _ _ => .bind (getSubscription_sourced id) fun h hh =>
    .call_bind trivial fun now _ => .call_bind trivial fun h₁ hleased => .call_bind trivial fun h₂ hrevived => ?_
  have hd : A.Derived j h h₂ := .assign (.assign .refl (.lease hj _) hleased) (.revive hj) hrevived
  exact .call_bind (hh.derived hd) fun _ _ => .pure trivial

theorem delete_sourced (id : String) (hj : j = .delete id) : Sourced cfg j A (delete id) := by
  refine .call_bind trivial fun r hr => ?_
  cases r with
  | none => exact .pure trivial
  | some h =>
    refine .call_bind trivial fun h₁ hdeleted => ?_
    have hd : A.Derived j h h₁ := .assign .refl (.delete hj) hdeleted
    exact .call_bind ((Answers.Handed.held (.found hr)).derived hd) fun _ _ => .pure trivial

theorem ack_sourced (id cursor : String) (hj : j = .ack id cursor) : Sourced cfg j A (ack id cursor) := by
  refine .bind (getActiveSubscription_sourced id) fun h hh => .bind (.lift fun _ hok => hok) fun topic htopic => ?_
  split
  · exact .lift fun _ _ => trivial
  · exact .bind (advance_sourced none hh (.given hj htopic)) fun _ _ => .pure trivial

/-- The events that a replay returns stand on pages of a topic that may be replayed. -/
def Answers.Replays (A : Answers) (cfg : PublisherConfig) (event : Json) : Prop :=
  ∃ sub topic topicModel record, A.Configures topic topicModel ∧ topicModel.replay = true ∧ A.Read topic record ∧
    event = buildEvent cfg sub record 1 topicModel.schemaUrl

theorem replayEvents_built {sub : Subscription} {topicModel : Topic} (records : List EventRecord) :
    ∀ {events : List Json}, replayEvents cfg sub topicModel records = .ok events → ∀ event ∈ events,
      ∃ record ∈ records, event = buildEvent cfg sub record 1 topicModel.schemaUrl := by
  induction records with
  | nil =>
    intro events hok event hevent
    cases hok
    cases hevent
  | cons record rest ih =>
    intro events hok event hevent
    simp only [replayEvents] at hok
    split at hok
    · cases hok
    split at hok
    · cases hok
    rename_i later hlater
    have hrest : event ∈ later → ∃ record' ∈ record :: rest, event = buildEvent cfg sub record' 1 topicModel.schemaUrl := by
      intro hmem
      obtain ⟨record', hmem', heq⟩ := ih hlater event hmem
      exact ⟨record', List.mem_cons_of_mem _ hmem', heq⟩
    cases hok
    split at hevent
    · rcases List.mem_cons.mp hevent with rfl | hmem
      · exact ⟨record, List.mem_cons_self, rfl⟩
      · exact hrest hmem
    · exact hrest hevent

theorem replay_sourced (id : String) (from_ to_ : Option String) (limit : Int) :
    Sourced cfg j A (replay cfg id from_ to_ limit) fun r => ∀ event ∈ r.1, A.Replays cfg event := by
  refine .bind (getActiveSubscription_sourced id) fun h _ => .bind (.lift fun _ _ => trivial) fun topic _ => ?_
  split
  · exact .lift fun _ hok => (by cases hok)
  · refine .bind (getTopic_sourced topic) fun topicModel htopic => ?_
    split
    · exact .lift fun _ hok => (by cases hok)
    · rename_i hreplay
      refine .call_bind trivial fun page hpage => .bind (.lift fun _ hok => hok) fun found hfound =>
        .bind (.lift fun _ hok => hok) fun events hevents => .pure fun event hevent => ?_
      obtain ⟨records, next⟩ := found
      subst hfound
      obtain ⟨record, hmem, heq⟩ := replayEvents_built records hevents event hevent
      exact ⟨h.sub, topic, topicModel, record, htopic, by simpa using hreplay, ⟨_, _, _, _, _, hpage, hmem⟩, heq⟩

/-- What is known of the values of jobs. -/
def Answers.Returns (A : Answers) (cfg : PublisherConfig) : Val → Prop
  | .page events _ => ∀ event ∈ events, A.Replays cfg event
  | _ => True

/-- Every job makes its calls for a reason. -/
theorem code_sourced (cfg : PublisherConfig) (fuel : Nat) (j : Job) (A : Answers) :
    Sourced cfg j A (code cfg fuel j) (A.Returns cfg) := by
  cases hj : j with
  | declareTopic topic => exact .call_bind trivial fun _ _ => .pure trivial
  | compact topic => exact .call_bind trivial fun _ _ => .pure trivial
  | subscribe req => exact .bind (subscribe_sourced req) fun _ _ => .pure trivial
  | getSubscription id => exact .bind (getSubscription_sourced id) fun _ _ => .pure trivial
  | listSubscriptions => exact .bind listSubscriptions_sourced fun _ _ => .pure trivial
  | renew id lease => exact .bind (renew_sourced id lease rfl) fun _ _ => .pure trivial
  | delete id => exact .bind (delete_sourced id rfl) fun _ _ => .pure trivial
  | ack id cursor => exact .bind (ack_sourced id cursor rfl) fun _ _ => .pure trivial
  | replay id from_ to_ limit => exact .bind (replay_sourced id from_ to_ limit) fun _ hr => .pure hr
  | publish topic type data subject => exact .bind (publish_sourced topic type data subject rfl) fun _ _ => .pure trivial
  | dispatchPending => exact .bind dispatchPending_sourced fun _ _ => .pure trivial
  | dispatchSubscription h topics =>
    exact .bind (dispatchSubscription_sourced (Answers.Handed.held (.given rfl)) topics) fun _ _ => .pure trivial
  | retryDelivery item => exact .bind (retryDelivery_sourced (.given rfl)) fun _ _ => .pure trivial
  | runOnce now batch lease => exact .bind (runOnce_sourced now batch lease rfl) fun _ _ => .pure trivial

end Calls

end Programs

end A2AEvents
