import A2AEvents.Spec.Provenance

/-!
# What calls are made for

A task adds a subscription after all checks of `subscribe` have passed, it sets a lease of a length that
the configuration allows, and it sends an event because the selector of the subscription matches it, or
because an item asks for it once more. What it sends is the event of the record, signed, in the frame of
the subscription's delivery mode. Like the origin of its arguments, this is stated for every set of
answers that the task may have received.

## Key results

- `Answers.Vets`: the checks that a new subscription has passed
- `Answers.Wants`: why an event goes to a subscription
- `code_screened`: every job makes its calls for these reasons
-/

namespace A2AEvents

open Async Publisher

/-! ## Reasons -/

namespace Answers

variable (A : Answers)

/-- The end of a lease that began at a reading of the clock and has a length within the bounds. -/
def Leases (cfg : PublisherConfig) (until_ : Time) : Prop :=
  ∃ now length, A .now now ∧ cfg.minLeaseSeconds ≤ length ∧ length ≤ cfg.maxLeaseSeconds ∧ until_ = now + seconds length

/-- The subscription has passed the checks of `subscribe`. -/
structure Vets (cfg : PublisherConfig) (sub : Subscription) : Prop where
  lease : A.Leases cfg sub.leaseUntil
  nodup : sub.topics.Nodup
  limits : ∀ limits, cfg.selectorLimits = some limits → limits.check sub.selector = .ok ()
  authorized : ∃ caller, A (.authorizeSubscribe caller sub.topics) (.ok ())
  declared : ∃ card, cfg.cardResolver sub.subscriberCardUrl = .ok card ∧ sub.delivery.mode ∈ card.acceptedDeliveryModes ∧
    resolveDeliveryTarget cfg sub.delivery.mode card = .ok sub.delivery
  topics : ∀ name ∈ sub.topics, ∃ topic, A.Configures name topic ∧ validateSelector sub.selector topic = .ok () ∧
    sub.delivery.mode ∈ topic.deliveryModes

variable (j : Job)

/-- The topic is one of the subscription's, or one that the job was given for it. -/
inductive Serves (h : Handle) (topic : String) : Prop where
  | own {h₁ : Handle} (hh : A.Held j h₁) (hd : A.Derived j h₁ h) (hmem : topic ∈ h₁.sub.topics)
  | given {h₁ : Handle} {topics : List String} (hj : j = .dispatchSubscription h₁ (some topics)) (hd : A.Derived j h₁ h)
    (hmem : topic ∈ topics)

/-- Why the event goes to the subscription: the selector matches it on a topic that is served, or it is
    the one at the cursor of an item. -/
inductive Wants (cfg : PublisherConfig) (h : Handle) (record : EventRecord) : Prop where
  | matched {name : String} {topic : Topic} (hserves : A.Serves j h name) (hread : A.Read name record)
    (htopic : A.Configures name topic)
    (hmatch : selectorMatches cfg.lower h.sub.selector (rawEventDict record) topic.filterableFields = .ok true)
  | retried {item : RetryItem} {h₀ : Handle} (hitem : A.Takes j item) (hfound : A (.get item.subscriptionId) (some h₀))
    (hd : A.Derived j h₀ h) (hread : A.Read item.topic record) {o : Nat} (hcursor : Cursor.offsetOf item.cursor = .ok o)
    (hoffset : Cursor.offsetOf record.cursor = .ok o)

/-- The frame carries the event of the record, signed, to the delivery target of the subscription. -/
structure Frames (cfg : PublisherConfig) (sub : Subscription) (record : EventRecord) (n : Nat) (topic : Topic)
    (frame : Frame) : Prop where
  configured : A.Configures record.topic topic
  signed : ∃ signature hex, cfg.signingKey.sign (cfg.isoformat record.createdAt)
      (buildEvent cfg sub record n topic.schemaUrl) = .ok signature ∧
    frame = frameDelivery cfg sub (buildEvent cfg sub record n topic.schemaUrl) signature (cfg.isoformat record.createdAt) hex

/-- The task sent the event to the subscription and was told that it was taken. -/
def Took (attempt : DeliveryAttempt) : Prop :=
  ∃ sub record n frame result, A (.send sub record n frame) (.ok result) ∧ result.ack = true ∧
    attempt.subscriptionId = sub.subscriptionId ∧ attempt.eventId = record.eventId

end Answers

/-- Further reasons for calls, beside where their arguments come from. -/
def screening (cfg : PublisherConfig) (j : Job) (A : Answers) : Protocol sig where
  asks := fun o => match o with
    | .add sub _ => A.Vets cfg sub
    | .assign _ (.leaseUntil t) => A.Leases cfg t
    | .enqueue item => ∃ h record, A.Held j h ∧ A.Wants j cfg h record ∧ item.subscriptionId = h.sub.subscriptionId ∧
      item.topic = record.topic ∧ item.cursor = record.cursor
    | .send sub record n frame => (∃ h, A.Held j h ∧ A.Wants j cfg h record ∧ h.sub = sub) ∧
      ∃ topic, A.Frames cfg sub record n topic frame
    | .recordAttempt attempt => attempt.status = .delivered → A.Took attempt
    | _ => True
  answers := A
  jobs := fun j' => match j' with
    | .dispatchSubscription h (some topics) => ∀ topic ∈ topics, topic ∈ h.sub.topics
    | _ => True

/-- Calls that need no further reason. -/
def ordinaryProtocol : Protocol sig where
  asks := fun o => match o with
    | .add .. | .enqueue _ | .send .. | .assign _ (.leaseUntil _) => False
    | .recordAttempt attempt => attempt.status ≠ .delivered
    | _ => True
  answers := fun _ _ => True
  jobs := fun _ => False

/-- The program makes no call that needs a further reason. -/
abbrev Ordinary {α : Type} (p : M α) : Prop := p.Upholds ordinaryProtocol fun _ => True

/-! ## Programs that make ordinary calls -/

namespace Ordinary

variable {α β : Type} {cfg : PublisherConfig}

theorem pure (a : α) : Ordinary (.pure a) := Prog.Upholds.pure trivial

theorem bind {p : M α} {f : α → M β} (hp : Ordinary p) (hf : ∀ a, Ordinary (f a)) : Ordinary (p >>= f) :=
  Prog.Upholds.bind hp fun a _ => hf a

theorem call {o : Op} (ho : ordinaryProtocol.asks o) : Ordinary (perform o) := Prog.Upholds.call ho fun _ _ => trivial

theorem next {o : Op} {f : o.Res → M α} (ho : ordinaryProtocol.asks o) (hf : ∀ r, Ordinary (f r)) : Ordinary (perform o >>= f) :=
  Prog.Upholds.call_bind ho fun r _ => hf r

theorem raises (x : Except PyError α) : Ordinary (orRaise x) := Prog.Upholds.lift fun _ _ => trivial

theorem getTopic (name : String) : Ordinary (getTopic name) := by
  refine next trivial fun found => ?_
  cases found with
  | some topic => exact pure topic
  | none => exact next trivial fun r => bind (raises r) fun topic => next trivial fun _ => pure topic

theorem expireAndPersist (h : Handle) : Ordinary (expireAndPersist h) := by
  have hdue : Ordinary (expireIfDue h) := by
    refine next trivial fun h₁ => ?_
    refine next trivial fun now => ?_
    split
    · exact next trivial fun h₂ => pure (true, h₂)
    · exact pure (false, h₁)
  apply bind hdue
  intro r
  obtain ⟨changed, h₁⟩ := r
  cases changed with
  | true => exact call trivial
  | false => exact pure h₁

theorem isActive (h : Handle) : Ordinary (isActive h) :=
  bind (expireAndPersist h) fun _ => next trivial fun _ => pure _

theorem getSubscription (id : String) : Ordinary (getSubscription id) := by
  refine next trivial fun found => ?_
  cases found with
  | none => exact raises _
  | some h =>
    show Ordinary (if h.sub.status = .deleted then _ else _)
    split
    · exact raises _
    · exact expireAndPersist h

theorem getActiveSubscription (id : String) : Ordinary (getActiveSubscription id) := by
  apply bind (getSubscription id)
  intro h
  refine next trivial fun h₁ => ?_
  split
  · exact raises _
  · exact pure h₁

theorem listSubscriptions : Ordinary listSubscriptions := by
  have hexpire : ∀ hs, Ordinary (expireAll hs) := by
    intro hs
    induction hs with
    | nil => exact pure []
    | cons h rest ih => exact bind (expireAndPersist h) fun _ => bind ih fun _ => pure _
  have hderef : ∀ hs, Ordinary (derefAll hs) := by
    intro hs
    induction hs with
    | nil => exact pure []
    | cons h rest ih => exact next trivial fun _ => bind ih fun _ => pure _
  exact next trivial fun hs => bind (hexpire hs) fun hs => bind (hderef hs) fun _ => pure _

theorem recordAt (topic cursor : String) : Ordinary (recordAt topic cursor) := by
  refine bind (raises _) fun offset => ?_
  refine bind (raises _) fun from_ => ?_
  refine next trivial fun page => ?_
  split
  · exact raises _
  · split
    · exact pure none
    · -- the second read of the topic
      refine next trivial fun page => ?_
      split
      · exact raises _
      · exact pure none
      · exact raises _
  · exact raises _

theorem headOffset (topic : String) : Ordinary (headOffset topic) := by
  refine next trivial fun n => ?_
  split
  · exact pure _
  · exact next trivial fun r => bind (raises r) fun _ => bind (raises _) fun _ => pure _

theorem startOffsets (fromCursor : String) (topics : List Topic) : ∀ acc, Ordinary (startOffsets fromCursor acc topics) := by
  have hstart : ∀ topic, Ordinary (startOffset topic fromCursor) := by
    intro topic
    unfold Publisher.startOffset
    split
    · exact pure _
    split
    · exact headOffset topic
    refine bind (raises _) fun cursorTopic => ?_
    split
    · exact next trivial fun page => bind (raises page) fun _ => bind (raises _) fun _ => pure _
    · exact headOffset topic
  induction topics with
  | nil => exact fun acc => pure acc
  | cons topic rest ih => exact fun acc => bind (hstart topic.name) fun _ => ih _

theorem recordAttempt (h : Handle) (record : EventRecord) (n : Nat) {status : AttemptStatus} (hstatus : status ≠ .delivered)
    (result : DeliveryResult) : Ordinary (recordAttempt h record n status result) :=
  next trivial fun _ => call hstatus

theorem raiseHighWater (id topic : String) (offset : Int) : Ordinary (raiseHighWater id topic offset) := by
  refine next trivial fun d => ?_
  split
  · exact call trivial
  · exact pure ()

theorem advance (h : Handle) (topic cursor : String) (eventId : Option String) : Ordinary (advance h topic cursor eventId) := by
  have hcursor : Ordinary (advanceCursor h topic cursor) := by
    refine next trivial fun h' => ?_
    split
    · exact next trivial fun _ => call trivial
    · exact pure h'
  apply bind hcursor
  intro h'
  refine bind (raises _) fun offset => ?_
  apply bind (raiseHighWater _ _ _)
  intro _
  apply bind
  · cases eventId with
    | some e => exact pure _
    | none => exact bind (recordAt topic cursor) fun _ => pure _
  · intro eventId
    apply bind
    · cases eventId with
      | some e => exact call trivial
      | none => exact pure ()
    · exact fun _ => pure h'

theorem onTerminal (h : Handle) (record : EventRecord) (n : Nat) (result : DeliveryResult) :
    Ordinary (onTerminal h record n result) :=
  bind (recordAttempt h record n (by decide) result) fun _ => bind (raises _) fun _ => call trivial

theorem readPage (topic : String) (from_ : Option String) : Ordinary (readPage cfg topic from_) := by
  refine next trivial fun page => ?_
  split
  · exact pure _
  · split
    · exact next trivial fun page => bind (raises page) fun _ => pure _
    · exact raises _

theorem checkSubscriptionQuota (url : String) : Ordinary (checkSubscriptionQuota cfg url) := by
  unfold Publisher.checkSubscriptionQuota
  split
  · exact pure ()
  · apply bind listSubscriptions
    intro hs
    show Ordinary (if _ then _ else _)
    split
    · exact raises _
    · exact pure ()

end Ordinary

/-! ## Deliveries -/

section Programs

variable {cfg : PublisherConfig} {fuel : Nat} {j : Job} {A : Answers}

/-- The program makes its calls for the further reasons and returns values that satisfy `Q`. -/
abbrev Screened (cfg : PublisherConfig) (j : Job) (A : Answers) {α : Type} (p : M α) (Q : α → Prop := fun _ => True) :
    Prop :=
  p.Upholds (screening cfg j A) Q

/-- A program that makes ordinary calls is known by where its calls come from. -/
theorem Ordinary.screened {α : Type} {p : M α} {Q : α → Prop} (hp : Ordinary p) (hs : Sourced cfg j A p Q) :
    Screened cfg j A p Q := by
  have hasks : ∀ {o}, ordinaryProtocol.asks o → (screening cfg j A).asks o := by
    intro o ho
    cases o with
    | add | enqueue | send => exact ho.elim
    | recordAttempt attempt => exact fun hstatus => absurd hstatus ho
    | assign h e =>
      cases e with
      | leaseUntil t => exact ho.elim
      | _ => trivial
    | _ => trivial
  have hboth : p.Upholds (screening cfg j A) fun a => Q a ∧ True :=
    Prog.Upholds.mono (R := (provenance cfg j A).inter ordinaryProtocol) (fun ho => hasks ho.2) (fun hr => ⟨hr, trivial⟩)
      (fun hj => hj.2.elim) (hs.inter hp)
  exact hboth.weaken fun _ h => h.1

theorem Answers.Serves.derived {h h' : Handle} {topic : String} (hs : A.Serves j h topic) (hd : A.Derived j h h') :
    A.Serves j h' topic := by
  cases hs with
  | own hh hd₁ hmem => exact .own hh (hd₁.trans hd) hmem
  | given hj hd₁ hmem => exact .given hj (hd₁.trans hd) hmem

section Deliveries

variable {h : Handle} {topic : String} {record : EventRecord} {o : Nat}

/-- What is sent is the signed event of the record. -/
theorem attemptSend_screened (hh : A.Held j h) (hw : A.Wants j cfg h record) (n : Nat) :
    Screened cfg j A (attemptSend cfg h record n) (A.Sent h record) := by
  refine .bind ((Ordinary.getTopic _).screened (getTopic_sourced _)) fun topic htopic =>
    .bind (.lift fun _ hok => hok) fun signature hsigned => .call_bind trivial fun hex _ => ?_
  have hframes : A.Frames cfg h.sub record n topic (frameDelivery cfg h.sub _ signature _ hex) :=
    ⟨htopic, signature, hex, hsigned, rfl⟩
  exact .call_bind ⟨⟨h, hh, hw, rfl⟩, topic, hframes⟩ fun _ hr => .lift fun _ hok => ⟨n, _, hok ▸ hr⟩

/-- A retry that is noted is no delivery. -/
theorem recordRetry_screened {n : Nat} (hn : A.Counts j cfg n) {result : DeliveryResult} (hsent : A.Sent h record result) :
    Screened cfg j A (recordAttempt h record n .retry result) :=
  (Ordinary.recordAttempt h record n (by decide) result).screened (recordAttempt_sourced hn .retry hsent)

/-- An attempt is noted as delivered when it was acked. -/
theorem onDelivered_screened (hd : A.Delivers j h topic record o) {n : Nat}
    {result : DeliveryResult} (hsent : A.Sent h record result) (hack : result.ack = true) :
    Screened cfg j A (onDelivered h record n result) (A.Derived j h) := by
  obtain ⟨m, frame, ha⟩ := hsent
  have hrecord : Screened cfg j A (recordAttempt h record n .delivered result) := by
    refine .call_bind trivial fun hex _ => .call (fun _ => ?_) fun _ _ => trivial
    exact ⟨h.sub, record, m, frame, result, ha, hack, rfl, rfl⟩
  exact .bind hrecord fun _ _ =>
    (Ordinary.advance h record.topic record.cursor (some record.eventId)).screened (advance_sourced _ hd.held hd.acks)

theorem onTerminal_screened (hd : A.Delivers j h topic record o) {n : Nat} (hn : A.Counts j cfg n)
    {result : DeliveryResult} (hsent : A.Sent h record result) : Screened cfg j A (onTerminal h record n result) :=
  (Ordinary.onTerminal _ _ _ _).screened (onTerminal_sourced hd hn hsent)

theorem deliverQueued_screened (hd : A.Delivers j h topic record o) (hw : A.Wants j cfg h record) :
    Screened cfg j A (deliverQueued cfg h record) (A.Derived j h) := by
  have hone : A.Counts j cfg 1 := .within (Nat.le_refl 1) (.inl rfl)
  refine .bind (attemptSend_screened hd.held hw 1) fun result hsent => ?_
  split
  · rename_i hack
    exact onDelivered_screened hd hsent hack
  split
  · exact .bind (onTerminal_screened hd hone hsent) fun _ _ => .pure .refl
  · -- what is queued is the event that was wanted
    exact .bind (recordRetry_screened hone hsent) fun _ _ => .call_bind trivial fun _ _ => .call_bind trivial fun _ _ =>
      .bind (.lift fun _ _ => trivial) fun _ _ => .call_bind ⟨h, record, hd.held, hw, rfl, rfl, rfl⟩ fun _ _ =>
      .bind (.lift fun _ _ => trivial) fun _ _ => .call_bind trivial fun _ _ => .pure .refl

theorem deliverInline_screened (hd : A.Delivers j h topic record o) (hw : A.Wants j cfg h record) (remaining : Nat) :
    ∀ {n : Nat}, 1 ≤ n → (n : Int) + remaining ≤ cfg.maxAttempts + 1 →
      Screened cfg j A (deliverInline cfg h record n remaining) (A.Derived j h) := by
  induction remaining with
  | zero => exact fun _ _ => .pure .refl
  | succ remaining ih =>
    intro n hpos hle
    have hn : A.Counts j cfg n := .within hpos (.inr (by omega))
    refine .bind (attemptSend_screened hd.held hw n) fun result hsent => ?_
    split
    · rename_i hack
      exact onDelivered_screened hd hsent hack
    split
    · exact .bind (onTerminal_screened hd hn hsent) fun _ _ => .pure .refl
    · -- the same event once more
      exact .bind (recordRetry_screened hn hsent) fun _ _ => .bind (.lift fun _ _ => trivial) fun _ _ =>
        .call_bind trivial fun _ _ => ih (by omega) (by omega)

theorem deliverOne_screened (hd : A.Delivers j h topic record o) (hw : A.Wants j cfg h record) :
    Screened cfg j A (deliverOne cfg h record) (A.Derived j h) := by
  unfold deliverOne
  split
  · exact deliverQueued_screened hd hw
  · cases hmax : cfg.maxAttempts.toNat with
    | zero => exact .pure .refl
    | succ remaining => exact deliverInline_screened hd hw _ (Nat.le_refl 1) (by omega)

/-- A retry sends the event at the cursor of its item. -/
theorem retryDelivery_screened {item : RetryItem} (hitem : A.Takes j item) :
    Screened cfg j A (retryDelivery cfg item) := by
  have hn : A.Counts j cfg (item.attempt + 1) := .next hitem rfl
  refine .call_bind trivial fun found hfound => ?_
  cases found with
  | none => exact .call trivial fun _ _ => trivial
  | some h =>
    show Screened cfg j A (if h.sub.status ≠ .active then _ else _)
    split
    · exact .call trivial fun _ _ => trivial
    refine .bind ((Ordinary.recordAt _ _).screened (recordAt_sourced _ _)) fun found hrecord => ?_
    cases found with
    | none => exact .call trivial fun _ _ => trivial
    | some record =>
      obtain ⟨hread, o, ho, hoffset⟩ := hrecord record rfl
      have hh : A.Held j h := Answers.Handed.held (.found hfound)
      have hd : A.Delivers j h item.topic record o := ⟨hh, hread, hoffset, .retried hitem hfound .refl rfl ho⟩
      have hw : A.Wants j cfg h record := .retried hitem hfound .refl hread ho hoffset
      refine .bind (attemptSend_screened hh hw _) fun result hsent => ?_
      split
      · rename_i hack
        exact .bind (onDelivered_screened hd hsent hack) fun _ _ => .call trivial fun _ _ => trivial
      split
      · exact .bind (onTerminal_screened hd hn hsent) fun _ _ => .call trivial fun _ _ => trivial
      · exact .bind (recordRetry_screened hn hsent) fun _ _ => .call_bind trivial fun _ _ =>
          .bind (.lift fun _ _ => trivial) fun _ _ => .call trivial fun _ _ => trivial

theorem runOnce_screened (now : Time) (batch lease : Int) : Screened cfg j A (runOnce cfg now batch lease) := by
  have hall : ∀ items : List RetryItem, (∀ item ∈ items, A.Takes j item) → Screened cfg j A (retryAll cfg items) := by
    intro items
    induction items with
    | nil => exact fun _ => .pure trivial
    | cons item rest ih =>
      intro hitems
      exact .bind (retryDelivery_screened (hitems item List.mem_cons_self)) fun _ _ =>
        ih fun item hitem => hitems item (List.mem_cons_of_mem _ hitem)
  exact .call_bind trivial fun items hclaimed => .bind (hall items fun _ hmem => .claimed hclaimed hmem) fun _ _ =>
    .pure trivial

end Deliveries

/-! ## Catching up -/

section Dispatch

/-- Only events that the selector matches are delivered. -/
theorem scanPage_screened {topicModel : Topic} {topic : String} (htopic : A.Configures topic topicModel)
    (records : List EventRecord) (hread : ∀ r ∈ records, A.Read topic r) :
    ∀ (scan : Int) (processed : Nat) (h : Handle), A.Held j h → A.Passed j h topic scan → A.Serves j h topic →
      Screened cfg j A (scanPage cfg topicModel scan processed h records) fun r => A.Derived j h r.2.2 := by
  induction records with
  | nil => exact fun _ _ _ _ _ _ => .pure .refl
  | cons record rest ih =>
    intro scan processed h hh hpassed hserves
    have hrest := ih fun r hr => hread r (List.mem_cons_of_mem _ hr)
    have hrecord : A.Read topic record := hread record List.mem_cons_self
    refine .bind (.lift fun _ hok => hok) fun offset hoffset => ?_
    split
    · exact hrest _ _ _ hh hpassed hserves
    · rename_i hgt
      have hlt : scan < offset := by omega
      have hd : A.Delivers j h topic record offset := ⟨hh, hrecord, hoffset, .beyond hpassed hlt⟩
      refine .bind (.lift fun _ hok => hok) fun matched hmatched => .bind (P := A.Derived j h) ?_ fun h₁ hd₁ =>
        (hrest _ _ h₁ (hh.derived hd₁) ((hpassed.derived hd₁).mono (Int.le_of_lt hlt)) (hserves.derived hd₁)).weaken
          fun _ hd₂ => hd₁.trans hd₂
      split
      · rename_i htrue
        subst htrue
        exact deliverOne_screened hd (.matched hserves hrecord htopic hmatched)
      · exact .pure .refl

theorem catchUp_screened {topic : String} {h : Handle} (hh : A.Held j h) (hserves : A.Serves j h topic) :
    Screened cfg j A (catchUp cfg fuel h topic) fun r => A.Derived j h r.2 := by
  refine .bind ((Ordinary.getTopic topic).screened (getTopic_sourced topic)) fun topicModel htopic => ?_
  suffices hpages : ∀ (fuel processed : Nat) (h : Handle), A.Held j h → A.Serves j h topic →
      Screened cfg j A (catchUpPages cfg topicModel topic processed h fuel) fun r => A.Derived j h r.2 from
    hpages _ _ _ hh hserves
  intro fuel
  induction fuel with
  | zero => exact fun _ _ _ _ => .diverge
  | succ fuel ih =>
    intro processed h hh hserves
    refine .call_bind trivial fun d hd => .bind (.lift fun _ _ => trivial) fun from_ _ =>
      .bind ((Ordinary.readPage _ _).screened (readPage_sourced topic _)) fun records hpage => ?_
    have hpassed : A.Passed j h topic (d.getD topic (-1)) := ⟨h, d, .refl, hd, Int.le_refl _⟩
    split
    · exact .pure .refl
    · refine .bind (scanPage_screened htopic records hpage.1 _ _ _ hh hpassed hserves) fun r hr => ?_
      exact .bind ((Ordinary.raiseHighWater _ _ _).screened (raiseHighWater_sourced (hh.derived hr) _ _)) fun _ _ =>
        (ih _ _ (hh.derived hr) (hserves.derived hr)).weaken fun _ hdone => hr.trans hdone

theorem catchUpAll_screened (names : List String) :
    ∀ (processed : Nat) (h : Handle), A.Held j h → (∀ topic ∈ names, A.Serves j h topic) →
      Screened cfg j A (catchUpAll cfg fuel processed h names) := by
  induction names with
  | nil => exact fun _ _ _ _ => .pure trivial
  | cons name rest ih =>
    intro processed h hh hserves
    exact .bind (catchUp_screened hh (hserves name List.mem_cons_self)) fun r hr =>
      ih _ r.2 (hh.derived hr) fun topic hmem => (hserves topic (List.mem_cons_of_mem _ hmem)).derived hr

/-- A dispatch serves the topics of the subscription, or those that it was given for it. -/
theorem dispatchSubscription_screened {h : Handle} (hh : A.Held j h) {topics : Option (List String)}
    (hserves : ∀ names, topics = some names → ∀ topic ∈ names, A.Serves j h topic) :
    Screened cfg j A (dispatchSubscription cfg fuel h topics) := by
  refine .bind ((Ordinary.isActive h).screened (isActive_sourced hh)) fun r hr => ?_
  obtain ⟨active, h₂⟩ := r
  obtain ⟨-, h₁, hd, ha⟩ := hr
  have hd₂ : A.Derived j h h₂ := .deref hd ha
  have hall : ∀ topic ∈ topics.getD h₂.sub.topics, A.Serves j h₂ topic := by
    intro topic hmem
    cases topics with
    | none => exact .own (hh.derived hd₂) .refl hmem
    | some names => exact (hserves names rfl topic hmem).derived hd₂
  show Screened cfg j A (if (!active) = true then _ else _) _
  split
  · exact .pure trivial
  · refine .call_bind trivial fun authorized _ => ?_
    split
    · exact .pure trivial
    · exact .call_bind trivial fun _ _ => .bind (catchUpAll_screened _ _ _ (hh.derived hd₂) hall).attempt fun _ _ =>
        .call_bind trivial fun _ _ => .lift fun _ _ => trivial

theorem gatherDispatch_screened {hs : List Handle} {topics : Option (List String)}
    (hall : ∀ h ∈ hs, (screening cfg j A).jobs (.dispatchSubscription h topics)) :
    Screened cfg j A (gatherDispatch hs topics) := by
  apply Prog.Upholds.fork
  · intro j' hj'
    obtain ⟨h, hmem, rfl⟩ := List.mem_map.mp hj'
    exact hall h hmem
  · exact fun ids => .join fun r => .lift fun _ _ => trivial

/-- An event is dispatched to the subscriptions of its topic. -/
theorem publish_screened (topic type : String) (data : List (String × Json)) (subject : Option String) :
    Screened cfg j A (publish cfg topic type data subject) := by
  refine .call_bind trivial fun _ _ => .bind (.lift fun _ _ => trivial) fun _ _ =>
    .bind (P := fun _ => True) ?_ fun _ _ => .pure trivial
  split
  · refine .call_bind trivial fun hs _ => .bind (gatherDispatch_screened fun h hmem => ?_) fun _ _ => .pure trivial
    intro name hname
    rw [List.mem_singleton.mp hname]
    exact of_decide_eq_true (List.mem_filter.mp hmem).2
  · exact .pure trivial

theorem dispatchPending_screened : Screened cfg j A dispatchPending :=
  .call_bind trivial fun _ _ => .bind (gatherDispatch_screened fun _ _ => trivial) fun _ _ => .pure trivial

end Dispatch

/-! ## Subscribing -/

section Subscribing

theorem validateTopics_ok {req : SubscribeRequest} {models : List Topic} (h : validateTopics req models = .ok ()) :
    ∀ topic ∈ models, validateSelector req.selector topic = .ok () ∧ req.mode ∈ topic.deliveryModes := by
  induction models with
  | nil => exact fun _ hmem => (by cases hmem)
  | cons topic rest ih =>
    simp only [validateTopics] at h
    split at h
    · cases h
    rename_i hselector
    split at h
    · cases h
    rename_i hmode
    split at h
    · cases h
    intro topic' hmem
    rcases List.mem_cons.mp hmem with rfl | hmem
    · exact ⟨hselector, by simpa using hmode⟩
    · exact ih h topic' hmem

theorem resolveDeliveryTarget_mode {mode : DeliveryMode} {card : SubscriberCard} {resolved : ResolvedDelivery}
    (h : resolveDeliveryTarget cfg mode card = .ok resolved) : resolved.mode = mode := by
  have hmap : ∀ {x : Except PyError Unit} {target : ResolvedDelivery}, target.mode = mode →
      (x.map fun _ => target) = .ok resolved → resolved.mode = mode := by
    intro x target htarget hok
    cases x with
    | error e => cases hok
    | ok u =>
      cases hok
      exact htarget
  unfold resolveDeliveryTarget at h
  split at h
  all_goals
    split at h
    · cases h
    · cases h
    · exact hmap rfl h

/-- The checks of a request, as far as they do not concern the lease. -/
structure Answers.Checks (A : Answers) (cfg : PublisherConfig) (req : SubscribeRequest) (topics : List String)
    (resolved : ResolvedDelivery) : Prop where
  limits : ∀ limits, cfg.selectorLimits = some limits → limits.check req.selector = .ok ()
  authorized : A (.authorizeSubscribe req.caller topics) (.ok ())
  mode : resolved.mode = req.mode
  declared : ∃ card, cfg.cardResolver req.subscriberCardUrl = .ok card ∧ req.mode ∈ card.acceptedDeliveryModes ∧
    resolveDeliveryTarget cfg req.mode card = .ok resolved
  topics : ∀ name ∈ topics, ∃ topic, A.Configures name topic ∧ validateSelector req.selector topic = .ok () ∧
    req.mode ∈ topic.deliveryModes

theorem checkSubscribe_screened (req : SubscribeRequest) (topics : List String) :
    Screened cfg j A (checkSubscribe cfg req topics) fun r => A.Checks cfg req topics r.1 := by
  refine .bind (P := fun _ => True) ?_ fun _ _ =>
    .bind (P := fun _ => ∀ limits, cfg.selectorLimits = some limits → limits.check req.selector = .ok ()) ?_ fun _ hlimits =>
    .call_bind trivial fun allowed hallowed => .bind (P := fun _ => allowed = .ok ()) (.lift fun _ hok => hok) fun _ hok =>
    .bind ((Ordinary.checkSubscriptionQuota _).screened (checkSubscriptionQuota_sourced req.subscriberCardUrl)) fun _ _ =>
    .bind (.lift fun _ hcard => hcard) fun card hcard => .bind (.lift fun _ hmode => hmode) fun _ hmode =>
    .bind (.lift fun _ hresolved => hresolved) fun resolved hresolved =>
    .bind (P := fun models => ∀ name ∈ topics, ∃ topic ∈ models, A.Configures name topic) ?_ fun models hmodels =>
    .bind (.lift fun _ hvalid => hvalid) fun _ hvalid => .pure ?_
  · split
    · exact .call_bind trivial fun _ _ => .lift fun _ _ => trivial
    · exact .pure trivial
  · split
    · rename_i limits hsome
      refine .lift fun _ hcheck limits' hsome' => ?_
      rw [hsome] at hsome'
      cases hsome'
      exact hcheck
    · rename_i hnone
      refine .pure fun limits hsome => ?_
      rw [hnone] at hsome
      cases hsome
  · have hordinary : ∀ names, Ordinary (getTopics names) := by
      intro names
      induction names with
      | nil => exact .pure []
      | cons name rest ih => exact .bind (.getTopic name) fun _ => .bind ih fun _ => .pure _
    exact (hordinary topics).screened (getTopics_sourced topics)
  · refine ⟨hlimits, hok ▸ hallowed, resolveDeliveryTarget_mode hresolved, ⟨card, ?_, ?_, hresolved⟩, ?_⟩
    · -- the card is the resolver's, as nothing else is passed on
      unfold resolveCard at hcard
      split at hcard
      · rename_i card' hresolver
        cases hcard
        exact hresolver
      · cases hcard
      · cases hcard
    · simp only [checkDeliveryMode] at hmode
      split at hmode
      · cases hmode
      · rename_i hmem
        simpa using hmem
    · intro name hname
      obtain ⟨topic, hmem, htopic⟩ := hmodels name hname
      obtain ⟨hselector, hmodes⟩ := validateTopics_ok hvalid topic hmem
      exact ⟨topic, htopic, hselector, hmodes⟩

theorem checkLease_ok {length : Int} (h : checkLease cfg length = .ok ()) :
    cfg.minLeaseSeconds ≤ length ∧ length ≤ cfg.maxLeaseSeconds := by
  simp only [checkLease] at h
  split at h
  · cases h
  split at h
  · cases h
  · omega

/-- A subscription is added when it has passed every check. -/
theorem subscribe_screened (req : SubscribeRequest) : Screened cfg j A (subscribe cfg fuel req) := by
  refine .bind (.lift fun _ hlease => hlease) fun _ hlease => .bind (checkSubscribe_screened req _) fun r hr => ?_
  obtain ⟨resolved, models⟩ := r
  have hstarts : ∀ acc, Screened cfg j A (startOffsets req.fromCursor acc models) :=
    fun acc => ((Ordinary.startOffsets _ _ _).screened (startOffsets_sourced _ _ _)).weaken fun _ _ => trivial
  refine .call_bind trivial fun now hnow => .call_bind trivial fun hex _ => .bind (hstarts _) fun offsets _ =>
    .call_bind ?_ fun h hadded => .bind (P := fun _ => True) ?_ fun _ _ => .call_bind trivial fun _ _ => .pure trivial
  · obtain ⟨hmin, hmax⟩ := checkLease_ok hlease
    refine ⟨⟨now, _, hnow, hmin, hmax, rfl⟩, Dict.nodup _, hr.limits, ⟨_, hr.authorized⟩, ?_, ?_⟩
    · rw [hr.mode]
      exact hr.declared
    · rw [hr.mode]
      exact hr.topics
  · split
    · exact .bind (dispatchSubscription_screened (Answers.Handed.held (.added hadded)) fun _ hnone => (by cases hnone))
        fun _ _ => .pure trivial
    · exact .pure trivial

/-- A renewal grants a lease within the bounds. -/
theorem renew_screened (id : String) (length : Int) : Screened cfg j A (renew cfg id length) := by
  refine .bind (.lift fun _ hlease => hlease) fun _ hlease =>
    .bind ((Ordinary.getSubscription id).screened (getSubscription_sourced id)) fun h _ => .call_bind trivial fun now hnow => ?_
  obtain ⟨hmin, hmax⟩ := checkLease_ok hlease
  exact .call_bind ⟨now, length, hnow, hmin, hmax, rfl⟩ fun _ _ => .call_bind trivial fun _ _ =>
    .call_bind trivial fun _ _ => .pure trivial

end Subscribing

/-! ## Jobs -/

/-- Every job makes its calls for the further reasons, too, if the topics it was given are the subscription's. -/
theorem code_screened (cfg : PublisherConfig) (fuel : Nat) (j : Job) (A : Answers) :
    Screened cfg j A (code cfg fuel j) := by
  cases hj : j with
  | declareTopic topic => exact .call_bind trivial fun _ _ => .pure trivial
  | compact topic => exact .call_bind trivial fun _ _ => .pure trivial
  | subscribe req => exact .bind (subscribe_screened req) fun _ _ => .pure trivial
  | getSubscription id =>
    exact .bind ((Ordinary.getSubscription id).screened (getSubscription_sourced id)) fun _ _ => .pure trivial
  | listSubscriptions => exact .bind (Ordinary.listSubscriptions.screened listSubscriptions_sourced) fun _ _ => .pure trivial
  | renew id length => exact .bind (renew_screened id length) fun _ _ => .pure trivial
  | delete id =>
    refine .bind (P := fun _ => True) (.call_bind trivial fun found _ => ?_) fun _ _ => .pure trivial
    cases found with
    | none => exact .pure trivial
    | some h => exact .call_bind trivial fun _ _ => .call_bind trivial fun _ _ => .pure trivial
  | ack id cursor =>
    have hordinary : Ordinary (ack id cursor) := by
      refine .bind (.getActiveSubscription id) fun h => .bind (.raises _) fun topic => ?_
      split
      · exact .raises _
      · exact .bind (.advance _ _ _ _) fun _ => .pure _
    exact .bind (hordinary.screened (ack_sourced id cursor rfl)) fun _ _ => .pure trivial
  | replay id from_ to_ limit =>
    have hordinary : Ordinary (replay cfg id from_ to_ limit) := by
      refine .bind (.getActiveSubscription id) fun h => .bind (.raises _) fun topic => ?_
      split
      · exact .raises _
      · refine .bind (.getTopic topic) fun topicModel => ?_
        split
        · exact .raises _
        · exact .next trivial fun page => .bind (.raises _) fun _ => .bind (.raises _) fun _ => .pure _
    exact .bind (hordinary.screened (replay_sourced id from_ to_ limit)) fun _ _ => .pure trivial
  | publish topic type data subject => exact .bind (publish_screened topic type data subject) fun _ _ => .pure trivial
  | dispatchPending => exact .bind dispatchPending_screened fun _ _ => .pure trivial
  | dispatchSubscription h topics =>
    refine .bind (dispatchSubscription_screened (Answers.Handed.held (.given rfl)) fun names hnames topic hmem => ?_)
      fun _ _ => .pure trivial
    subst hnames
    exact .given rfl .refl hmem
  | retryDelivery item => exact .bind (retryDelivery_screened (.given rfl)) fun _ _ => .pure trivial
  | runOnce now batch lease => exact .bind (runOnce_screened now batch lease) fun _ _ => .pure trivial

end Programs

end A2AEvents
