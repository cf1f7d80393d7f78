import A2AEvents.Spec.LookupsSafe
import A2AEvents.Spec.SigningCorrect

/-!
# Catching up under the lock

What a task that holds the dispatch lock of a subscription knows between two events
(`Scanned`) and while it delivers one (`Delivering`), and that the methods of catch-up
lead from one to the other.

## Key results

- `deliverOne_safe`: one event, whatever the transport answers
- `scanPage_safe`, `catchUp_safe`: whole pages, whole topics
- `dispatchSubscription_safe`: the job
-/

namespace A2AEvents

open Async Publisher

variable {cfg : PublisherConfig} {fuel : Nat} {R : Regime} {j : Job} {i : Nat}
  {s s' : Snapshot cfg fuel} {A : Snapshot cfg fuel → Prop}

/-! ## What the task knows -/

/-- Task `i` holds the lock of an existing subscription that it was admitted to. -/
structure Serving (R : Regime) (i : Nat) (sub : Subscription) (s : Snapshot cfg fuel) : Prop where
  row : ∃ row, s.state.subs.rows.get? sub.subscriptionId = some row ∧ row.Alike sub
  lock : s.state.locks.get? sub.subscriptionId = some i
  added : ∀ p ∈ added s.trace, p.1.subscriptionId = sub.subscriptionId → p.1.Alike sub
  admitted : R.gated = true → Snapshot.Admitted s.trace i sub.subscriptionId

/-- Nothing was sent beyond the positions: the lock may be released. -/
structure Resting (R : Regime) (i : Nat) (sub : Subscription) (s : Snapshot cfg fuel) : Prop
    extends Serving R i sub s where
  caughtUp : R.ordered = true → s.CaughtUp sub.subscriptionId

/-- The log of the topic was scanned up to `scan`. -/
structure Scanned (R : Regime) (i : Nat) (sub : Subscription) (topic : String) (scan : Int)
    (s : Snapshot cfg fuel) : Prop extends Resting R i sub s where
  position : s.state.subs.position sub.subscriptionId topic ≤ scan
  below : scan ≤ s.state.subs.position sub.subscriptionId topic ∨ scan < s.state.store.count topic
  accounted : R.accounted = true → s.AccountedUpTo sub.subscriptionId topic scan

/-- Attempt number `attempt` of event number `o` is to be made; events up to `bound` are
    accounted for. -/
structure Delivering (R : Regime) (i : Nat) (sub : Subscription) (topic : String)
    (record : EventRecord) (o attempt : Nat) (bound : Int) (s : Snapshot cfg fuel) : Prop
    extends Serving R i sub s where
  lies : record.LiesAt topic o
  decodes : Cursor.split record.cursor = .ok (topic, o)
  canonical : ∃ bytes, canonicalize (.obj record.data) = .ok bytes
  recorded : record ∈ appended s.trace topic
  unique : ∀ q ∈ appended s.trace topic, q.LiesAt topic o → q = record
  below : o < s.state.store.count topic
  declared : ∃ t, TopicOf topic t s
  position : s.state.subs.position sub.subscriptionId topic < o
  others : R.ordered = true → ∀ t, t ≠ topic → ∀ p ∈ sends s.trace sub.subscriptionId t,
    (p.1 : Int) ≤ s.state.subs.position sub.subscriptionId t
  sent : R.ordered = true → ∀ p ∈ sends s.trace sub.subscriptionId topic, p.1 ≤ o
  next : R.ordered = true → MayFollow (sends s.trace sub.subscriptionId topic) (o, attempt)
  accounted : R.accounted = true → s.AccountedUpTo sub.subscriptionId topic bound

theorem Serving.interferes {sub : Subscription} (hr : Interferes R i s s') (h : Serving R i sub s) :
    Serving R i sub s' := by
  obtain ⟨row, hrow, halike⟩ := h.row
  obtain ⟨row', hrow', halike'⟩ := hr.rows _ row hrow
  refine ⟨⟨row', hrow', halike'.trans halike⟩, (hr.protects _ h.lock).lock, ?_, ?_⟩
  · intro p hp hid
    rcases hr.added p hp with hp | hnone
    · exact h.added p hp hid
    · rw [hid, hrow] at hnone
      cases hnone
  intro hg
  obtain ⟨e, he, hadmits⟩ := h.admitted hg
  exact ⟨e, hr.takeUp.trans he, hadmits⟩

theorem Serving.caughtUp_interferes {sub : Subscription} (hr : Interferes R i s s')
    (h : Serving R i sub s) (hc : s.CaughtUp sub.subscriptionId) :
    s'.CaughtUp sub.subscriptionId := by
  intro topic p hp
  have hprot := hr.protects _ h.lock
  rw [hprot.sends] at hp
  rw [hprot.position]
  exact hc topic p hp

theorem Resting.interferes {sub : Subscription} (hr : Interferes R i s s') (h : Resting R i sub s) :
    Resting R i sub s' :=
  ⟨h.toServing.interferes hr, fun ho => h.toServing.caughtUp_interferes hr (h.caughtUp ho)⟩

/-- What was accounted for stays so while the task serves the subscription. -/
theorem Serving.accounted_interferes {sub : Subscription} {topic : String} {bound : Int}
    (hr : Interferes R i s s') (h : Serving R i sub s)
    (ha : s.AccountedUpTo sub.subscriptionId topic bound) :
    s'.AccountedUpTo sub.subscriptionId topic bound := by
  obtain ⟨row, hrow, -⟩ := h.row
  exact ha.grows hr.toGrows hrow

theorem Scanned.interferes {sub : Subscription} {topic : String} {scan : Int}
    (hr : Interferes R i s s') (h : Scanned R i sub topic scan s) :
    Scanned R i sub topic scan s' := by
  have hpos := (hr.protects _ h.lock).position topic
  have hcount := hr.store.count topic
  refine ⟨h.toResting.interferes hr, by rw [hpos]; exact h.position, ?_,
    fun ha => h.toServing.accounted_interferes hr (h.accounted ha)⟩
  rw [hpos]
  exact h.below.imp_right fun hlt => by omega

theorem Delivering.interferes {sub : Subscription} {topic : String} {record : EventRecord}
    {o attempt : Nat} {bound : Int} (hr : Interferes R i s s')
    (h : Delivering R i sub topic record o attempt bound s) :
    Delivering R i sub topic record o attempt bound s' := by
  have hprot := hr.protects _ h.lock
  obtain ⟨t, ht⟩ := h.declared
  obtain ⟨l, hl, -⟩ := hr.trace
  refine ⟨h.toServing.interferes hr, h.lies, h.decodes, h.canonical, ?_, ?_, ?_,
    ⟨t, ht.grows hr.toGrows⟩, ?_, ?_, ?_, ?_,
    fun ha => h.toServing.accounted_interferes hr (h.accounted ha)⟩
  · rw [hl, appended_append]
    exact List.mem_append_left _ h.recorded
  · intro q hq hlies
    rcases hr.appended topic q hq with hq | ⟨o', ho', hat⟩
    · exact h.unique q hq hlies
    · have := hlies.unique hat
      have := h.below
      omega
  · exact Nat.lt_of_lt_of_le h.below (hr.store.count topic)
  · rw [hprot.position]; exact h.position
  · intro ho t hne p hp
    rw [hprot.sends] at hp
    rw [hprot.position]
    exact h.others ho t hne p hp
  · intro ho
    rw [hprot.sends]
    exact h.sent ho
  · intro ho
    rw [hprot.sends]
    exact h.next ho

/-! ## Attempts -/

/-- An attempt with this outcome is on record. -/
def Recorded (subscriptionId : String) (record : EventRecord) (status : AttemptStatus)
    (s : Snapshot cfg fuel) : Prop :=
  ∃ a ∈ s.state.subs.attempts, a.subscriptionId = subscriptionId ∧ a.eventId = record.eventId ∧
    a.cursor = record.cursor ∧ a.status = status

theorem recordAttempt_safe {h : Handle} {record : EventRecord} {attempt : Nat}
    {status : AttemptStatus} {result : DeliveryResult} {E : Snapshot cfg fuel → Prop}
    (hst : Stable R j i A) (hA : A s) :
    Triple R j i (recordAttempt h record attempt status result)
      (fun _ s => A s ∧ Recorded h.sub.subscriptionId record status s) E s := by
  unfold recordAttempt
  refine .bind (uuid_safe hst hA) ?_
  intro hex s hA
  refine .quiet rfl rfl ?_ hst hA ?_
  · intro s c r w' _ _ hex
    simp only [World.exec, Option.some.injEq, Prod.mk.injEq] at hex
    obtain ⟨-, rfl⟩ := hex
    exact ⟨rfl, rfl, fun _ _ => .inl, rfl, rfl, rfl, rfl, rfl,
      fun _ h => List.mem_append_left _ h⟩
  · intro s c r w' _ _ hex hA
    simp only [World.exec, Option.some.injEq, Prod.mk.injEq] at hex
    obtain ⟨-, rfl⟩ := hex
    exact ⟨hA, _, List.mem_append_right _ (List.mem_singleton.mpr rfl), rfl, rfl, rfl, rfl⟩

/-- One attempt: what the send does is up to the caller. Only a number of attempts too long
    to be printed keeps the event from being signed. -/
theorem attemptSend_safe {h : Handle} {record : EventRecord} {attempt : Nat}
    {P : DeliveryResult → Snapshot cfg fuel → Prop} {E : Snapshot cfg fuel → Prop}
    (hst : Stable R j i A) (hA : A s) (hdeclared : ∀ s, A s → ∃ t, TopicOf record.topic t s)
    (hdata : ∃ bytes, canonicalize (.obj record.data) = .ok bytes)
    (hE : ∀ s, A s → 10 ^ Cursor.maxStrDigits ≤ attempt → E s)
    (hsend : ∀ s c frame, Inv R s → A s → Admissible R j (.send h.sub record attempt frame) c s →
      Inv R (s.next i (.send h.sub record attempt frame) c.result s.state) ∧
      (contract R).guar j i s (s.next i (.send h.sub record attempt frame) c.result s.state) ∧
      (∀ result, c.result = .ok result →
        P result (s.next i (.send h.sub record attempt frame) c.result s.state)) ∧
      (∀ e, c.result = .error e →
        E (s.next i (.send h.sub record attempt frame) c.result s.state))) :
    Triple R j i (attemptSend cfg h record attempt) P E s := by
  unfold attemptSend
  refine .bind (getTopic_safe hst hA ?_) ?_
  · intro s hA hnone
    obtain ⟨t, log, hlog, -⟩ := hdeclared s hA
    rw [hnone] at hlog
    cases hlog
  · rintro topicModel s ⟨hA, _, _⟩
    refine .bind (P := fun _ s => A s) (.orRaise (fun _ _ => hA) ?_) ?_
    · intro e he
      refine hE s hA (Nat.le_of_not_lt fun hlt => ?_)
      obtain ⟨bytes, hbytes⟩ := hdata
      obtain ⟨bytes', hevent⟩ := canonicalize_buildEvent cfg h.sub topicModel.schemaUrl hbytes hlt
      obtain ⟨signature, hsign⟩ := cfg.signingKey.sign_ok (cfg.isoformat record.createdAt) hevent
      rw [hsign] at he
      cases he
    · intro signature s hA
      refine .bind (uuid_safe hst hA) ?_
      · intro hex s hA
        refine .bind (P := fun r s => (∀ result, r = .ok result → P result s) ∧
          ∀ e, r = .error e → E s) ?_ ?_
        · refine .call hst hA ?_
          intro s c r w' hinv hA hadm hex
          simp only [World.exec, Option.some.injEq, Prod.mk.injEq] at hex
          obtain ⟨rfl, rfl⟩ := hex
          obtain ⟨h₁, h₂, h₃, h₄⟩ := hsend s c _ hinv hA (hadm rfl)
          exact ⟨h₁, h₂, h₃, h₄⟩
        · rintro r s ⟨hP, hE⟩
          exact .orRaise hP hE

/-! ## Moving on -/

/-- Advancing the acked cursor. -/
theorem advanceCursor_safe {h : Handle} {topic cursor : String} {E : Snapshot cfg fuel → Prop}
    (hst : Firm R j i A) (hA : A s) (hh : Refers h s)
    (hfits : ∀ s, A s → Edit.Fits R s (.cursor topic cursor)) :
    Triple R j i (advanceCursor h topic cursor)
      (fun h' s => A s ∧ Refers h' s ∧ h'.sub.Alike h.sub) E s := by
  unfold advanceCursor
  refine .bind (deref_safe hst.stable hA hh) ?_
  rintro h₁ s₁ ⟨hA₁, hh₁, halike₁, _, _⟩
  split
  · refine .bind (P := fun h' s => A s ∧ Refers h' s ∧ h'.sub.Alike h.sub) ?_ ?_
    · refine assign_safe hh₁ (hfits s₁ hA₁) trivial ?_
      intro s₂ hr hqueue hx _ _
      have halike := hh₁.assign (.cursor topic cursor)
      exact ⟨hst.calm _ _ hr hqueue hx hA₁, (hh₁.grows hr.toGrows).alike halike, halike.trans halike₁⟩
    · rintro h₂ s₂ ⟨hA₂, hh₂, halike₂⟩
      refine (update_safe (E := E) (hst.and firm_refers) ⟨hA₂, hh₂⟩).mono ?_ (fun _ h => h)
      · rintro h₃ s₃ ⟨⟨hA₃, hh₃⟩, heq⟩
        have halike₃ : h₃.sub.Alike h₂.sub := by rw [heq]; exact .refl _
        exact ⟨hA₃, hh₃.alike halike₃, halike₃.trans halike₂⟩
  · exact .pure ⟨hA₁, hh₁, halike₁⟩

/-- Raising a position that nobody else moves meanwhile. -/
theorem raiseHighWater_safe {id topic : String} {o : Int} {P : Unit → Snapshot cfg fuel → Prop}
    {E : Snapshot cfg fuel → Prop} (hst : Stable R j i A) (hA : A s)
    (hpin : ∀ s s', (contract R).rely j i s s' → A s →
      s'.state.subs.position id topic = s.state.subs.position id topic)
    (hskip : ∀ s, A s → o ≤ s.state.subs.position id topic → P () s)
    (hset : ∀ s, Inv R s → A s → s.state.subs.position id topic < o →
      Inv R (s.positioned i id topic o) ∧ (contract R).guar j i s (s.positioned i id topic o) ∧
        P () (s.positioned i id topic o)) :
    Triple R j i (raiseHighWater id topic o) P E s := by
  unfold raiseHighWater
  refine .bind (P := fun d s => A s ∧ d.getD topic (-1) = s.state.subs.position id topic) ?_ ?_
  · refine .read rfl rfl hst hA ?_
    intro s c r _ _ hex hA
    simp only [World.exec, Option.some.injEq, Prod.mk.injEq, and_true] at hex
    refine ⟨hA, ?_⟩
    rw [← hex]
    rfl
  · rintro d s ⟨hA, hd⟩
    split
    · rename_i hgt
      refine .call (A := fun s => A s ∧ d.getD topic (-1) = s.state.subs.position id topic) ?_
        ⟨hA, hd⟩ ?_
      · intro s s' hr h
        exact ⟨hst s s' hr h.1, by rw [hpin s s' hr h.1]; exact h.2⟩
      · intro s c r w' hinv hA _ hex
        simp only [World.exec, Option.some.injEq, Prod.mk.injEq] at hex
        obtain ⟨-, rfl⟩ := hex
        exact hset s hinv hA.1 (by omega)
    · exact .pure (hskip s hA (by omega))

/-- Advancing the acked cursor and the position; what setting the position means is up to
    the caller. -/
theorem advance_safe {h : Handle} {topic cursor : String} {eventId : Option String}
    {Q E : Snapshot cfg fuel → Prop} (hst : Firm R j i A) (hA : A s) (hh : Refers h s)
    (hfits : ∀ s, A s → Edit.Fits R s (.cursor topic cursor)) (hQ : Stable R j i Q)
    (hpin : ∀ s s', (contract R).rely j i s s' → A s →
      s'.state.subs.position h.sub.subscriptionId topic =
        s.state.subs.position h.sub.subscriptionId topic)
    (hskip : ∀ s o, A s → Cursor.offsetOf cursor = .ok o →
      (o : Int) ≤ s.state.subs.position h.sub.subscriptionId topic → Q s)
    (hset : ∀ s o, Inv R s → A s → Cursor.offsetOf cursor = .ok o →
      s.state.subs.position h.sub.subscriptionId topic < o →
      Inv R (s.positioned i h.sub.subscriptionId topic o) ∧
        (contract R).guar j i s (s.positioned i h.sub.subscriptionId topic o) ∧
        Q (s.positioned i h.sub.subscriptionId topic o))
    (hEA : ∀ s e, A s → Cursor.offsetOf cursor = .error e → E s)
    (hEQ : eventId = none → ∀ s, Q s → E s) :
    Triple R j i (advance h topic cursor eventId)
      (fun h' s => Q s ∧ Refers h' s ∧ h'.sub.Alike h.sub) E s := by
  unfold advance
  refine .bind (advanceCursor_safe hst hA hh hfits) ?_
  rintro h₁ s₁ ⟨hA₁, hh₁, halike⟩
  refine .orRaise_bind ?_ (fun e he => hEA s₁ e hA₁ he)
  intro o hoff
  refine .bind (P := fun _ s => Q s ∧ Refers h₁ s) ?_ ?_
  · rw [halike.subscriptionId]
    refine raiseHighWater_safe (hst.stable.and firm_refers.stable) ⟨hA₁, hh₁⟩
      (fun s s' hr h => hpin s s' hr h.1) (fun s h hle => ⟨hskip s o h.1 hoff hle, h.2⟩) ?_
    intro s hinv h hlt
    obtain ⟨h₁, h₂, h₃⟩ := hset s o hinv h.1 hoff hlt
    exact ⟨h₁, h₂, h₃, h.2⟩
  intro _ s₂ h₂
  refine .bind (P := fun _ s => Q s ∧ Refers h₁ s) ?_ ?_
  · split
    · exact .pure h₂
    · unfold resolveEventId
      refine .bind ((recordAt_frame (hQ.and firm_refers.stable) h₂).mono (fun _ _ h => h)
        (fun s h => hEQ rfl s h.1)) ?_
      exact fun _ s h => .pure h
  intro e s₃ h₃
  refine .bind (P := fun _ s => Q s ∧ Refers h₁ s) ?_ (fun _ s h => .pure ⟨h.1, h.2, halike⟩)
  split
  · refine .quiet rfl rfl ?_ (hQ.and firm_refers.stable) h₃ (fun _ _ _ _ _ _ _ h => h)
    intro s c r w' _ _ hex
    simp only [World.exec, Option.some.injEq, Prod.mk.injEq] at hex
    obtain ⟨-, rfl⟩ := hex
    exact ⟨rfl, rfl, fun _ _ => .inl, rfl, rfl, rfl, rfl, rfl, fun _ h => h⟩
  · exact .pure h₃

/-- Moving the position on, up to where the task has sent and accounted. -/
private theorem Serving.positioned {sub : Subscription} {topic : String} {x : Int} (hinv : Inv R s)
    (h : Serving R i sub s) (hmono : s.state.subs.position sub.subscriptionId topic ≤ x)
    (hbelow : x < s.state.store.count topic)
    (hothers : R.ordered = true → ∀ t, t ≠ topic → ∀ p ∈ sends s.trace sub.subscriptionId t,
      (p.1 : Int) ≤ s.state.subs.position sub.subscriptionId t)
    (hsent : R.ordered = true → ∀ p ∈ sends s.trace sub.subscriptionId topic, (p.1 : Int) ≤ x)
    (hacc : R.accounted = true → s.AccountedUpTo sub.subscriptionId topic x) :
    Inv R (s.positioned i sub.subscriptionId topic x) ∧
      (contract R).guar j i s (s.positioned i sub.subscriptionId topic x) ∧
      Scanned R i sub topic x (s.positioned i sub.subscriptionId topic x) := by
  obtain ⟨row, hrow, halike⟩ := h.row
  refine ⟨hinv.setHighWater hrow (fun _ => hmono) (fun _ => hbelow) (fun _ => by rw [h.lock]; simp)
    hacc, guar_of_keeps (.setHighWater (fun _ => hmono) h.lock),
    ⟨⟨⟨⟨row, hrow, halike⟩, h.lock, ?_, ?_⟩, ?_⟩, ?_, ?_, ?_⟩⟩
  · intro p hp
    rw [added_next rfl] at hp
    exact h.added p hp
  · intro hg
    obtain ⟨e, he, hadmits⟩ := h.admitted hg
    exact ⟨e, by simpa [Entry.takesUp] using he, hadmits⟩
  · intro ho t p hp
    rw [sends_next rfl] at hp
    by_cases ht : t = topic
    · subst ht
      simp only [Snapshot.next_state, SubscriptionStore.position_setHighWater, and_self, if_true]
      exact hsent ho p hp
    · simp only [Snapshot.next_state, SubscriptionStore.position_setHighWater, ht, and_false,
        if_false]
      exact hothers ho t ht p hp
  · simp
  · simp
  · intro ha
    exact (hacc ha).grows (Grows.setHighWater (R := R) (i := i) (fun _ => hmono)) hrow

/-- Setting the position onto the event that was delivered, dead-lettered or handed off. -/
private theorem Delivering.positioned {sub : Subscription} {topic : String} {record : EventRecord}
    {o attempt : Nat} (hinv : Inv R s) (h : Delivering R i sub topic record o attempt o s) :
    Inv R (s.positioned i sub.subscriptionId topic o) ∧
      (contract R).guar j i s (s.positioned i sub.subscriptionId topic o) ∧
      Scanned R i sub topic o (s.positioned i sub.subscriptionId topic o) := by
  have hbelow := h.below
  refine h.toServing.positioned hinv (Int.le_of_lt h.position) (by omega) h.others ?_ h.accounted
  intro ho p hp
  have := h.sent ho p hp
  omega

/-- The outcome of an event is on record: the accounts reach it. -/
private theorem Delivering.settle {sub : Subscription} {topic : String} {record : EventRecord}
    {o attempt : Nat} {status : AttemptStatus}
    (h : Delivering R i sub topic record o attempt (o - 1) s)
    (hr : Recorded sub.subscriptionId record status s)
    (hstatus : status = .delivered ∨ status = .deadLetter) :
    Delivering R i sub topic record o attempt o s := by
  refine { h with accounted := ?_ }
  intro ha p hp hid
  obtain ⟨-, hacc⟩ := h.accounted ha p hp hid
  have hbelow := h.below
  refine ⟨.inl (by omega), ?_⟩
  intro q hq o' ho' hlt hle
  by_cases heq : o' = o
  · subst heq
    obtain rfl := h.unique q hq ho'
    obtain ⟨a, ha, hsub, hevent, hcursor, hst⟩ := hr
    exact .inr (.inr ⟨a, ha, hid ▸ hsub, hevent, hcursor, hst ▸ hstatus⟩)
  · exact hacc q hq o' ho' hlt (by omega)

/-- The object in the hands of the task is the subscription it serves. -/
def Holds (sub : Subscription) (h : Handle) (s : Snapshot cfg fuel) : Prop :=
  Refers h s ∧ h.sub.Alike sub

theorem Holds.interferes {sub : Subscription} {h : Handle} (hr : Interferes R i s s')
    (hh : Holds sub h s) : Holds sub h s' := ⟨hh.1.grows hr.toGrows, hh.2⟩

/-- Under the lock nobody else moves the positions. -/
private theorem Serving.pin {sub : Subscription} (h : Serving R i sub s)
    (hr : (contract R).rely j i s s') (topic : String) :
    s'.state.subs.position sub.subscriptionId topic =
      s.state.subs.position sub.subscriptionId topic :=
  ((interferes_of_rely hr).protects _ h.lock).position topic

theorem onDelivered_safe {sub : Subscription} {topic : String} {record : EventRecord}
    {o attempt n : Nat} {h : Handle} {result : DeliveryResult} {E : Snapshot cfg fuel → Prop}
    (hD : Delivering R i sub topic record o attempt (o - 1) s) (hh : Holds sub h s) :
    Triple R j i (onDelivered h record n result)
      (fun h' s => Scanned R i sub topic o s ∧ Holds sub h' s) E s := by
  obtain rfl : record.topic = topic := hD.lies.topic
  unfold onDelivered
  refine .bind (recordAttempt_safe
    (A := fun s => Delivering R i sub record.topic record o attempt (o - 1) s ∧ Holds sub h s)
    (.of_interferes fun _ _ hr h => ⟨h.1.interferes hr, h.2.interferes hr⟩) ⟨hD, hh⟩) ?_
  rintro _ s ⟨⟨hD, hh⟩, hrec⟩
  rw [hh.2.subscriptionId] at hrec
  have hset := hD.settle hrec (.inl rfl)
  have hid := hh.2.subscriptionId
  refine (advance_safe (A := fun s => Delivering R i sub record.topic record o attempt o s)
    (Q := fun s => Scanned R i sub record.topic o s)
    (.of_interferes fun _ _ hr h => h.interferes hr) hset hh.1 ?_
    (.of_interferes fun _ _ hr h => h.interferes hr) ?_ ?_ ?_ ?_ ?_).mono ?_ (fun _ h => h)
  · exact fun s hD _ => ⟨o, hD.decodes, hD.below⟩
  · intro s s' hr hD
    rw [hid]
    exact hD.toServing.pin hr _
  · intro s n hD hn hle
    have := hD.position
    have := hD.lies.offsetOf hn
    rw [hid] at hle
    omega
  · intro s n hinv hD hn _
    rw [hD.lies.offsetOf hn, hid]
    exact hD.positioned hinv
  · intro s e hD he
    simp [Cursor.offsetOf, hD.decodes, Except.map] at he
  · exact fun he => (by cases he)
  · exact fun h' s h => ⟨h.1, h.2.1, h.2.2.trans hh.2⟩

/-- Setting the position onto the event. -/
private theorem setPosition_safe {sub : Subscription} {topic : String} {record : EventRecord}
    {o attempt : Nat} {h : Handle} {E : Snapshot cfg fuel → Prop}
    (hD : Delivering R i sub topic record o attempt o s) (hh : Holds sub h s) :
    Triple R j i (do
      let offset ← orRaise (Cursor.offsetOf record.cursor)
      perform (.setHighWater h.sub.subscriptionId topic (offset : Int)))
      (fun _ s => Scanned R i sub topic o s ∧ Holds sub h s) E s := by
  refine .bind (P := fun n s => (Delivering R i sub topic record o attempt o s ∧ Holds sub h s) ∧
    n = o) (.orRaise ?_ ?_) ?_
  · intro n hn
    refine ⟨⟨hD, hh⟩, ?_⟩
    simpa [Cursor.offsetOf, hD.decodes, Except.map] using hn.symm
  · intro e he
    simp [Cursor.offsetOf, hD.decodes, Except.map] at he
  · rintro n s ⟨⟨hD, hh⟩, rfl⟩
    rw [hh.2.subscriptionId]
    refine .call (A := fun s => Delivering R i sub topic record n attempt n s ∧ Holds sub h s)
      (.of_interferes fun _ _ hr h => ⟨h.1.interferes hr, h.2.interferes hr⟩) ⟨hD, hh⟩ ?_
    intro s c r w' hinv h _ hex
    simp only [World.exec, Option.some.injEq, Prod.mk.injEq] at hex
    obtain ⟨-, rfl⟩ := hex
    obtain ⟨h₁, h₂, h₃⟩ := h.1.positioned (j := j) hinv
    exact ⟨h₁, h₂, h₃, h.2⟩

theorem onTerminal_safe {sub : Subscription} {topic : String} {record : EventRecord}
    {o attempt n : Nat} {h : Handle} {result : DeliveryResult} {E : Snapshot cfg fuel → Prop}
    (hD : Delivering R i sub topic record o attempt (o - 1) s) (hh : Holds sub h s) :
    Triple R j i (onTerminal h record n result)
      (fun _ s => Scanned R i sub topic o s ∧ Holds sub h s) E s := by
  obtain rfl : record.topic = topic := hD.lies.topic
  unfold onTerminal
  refine .bind (recordAttempt_safe
    (A := fun s => Delivering R i sub record.topic record o attempt (o - 1) s ∧ Holds sub h s)
    (.of_interferes fun _ _ hr h => ⟨h.1.interferes hr, h.2.interferes hr⟩) ⟨hD, hh⟩) ?_
  rintro _ s ⟨⟨hD, hh⟩, hrec⟩
  rw [hh.2.subscriptionId] at hrec
  exact setPosition_safe (hD.settle hrec (.inr rfl)) hh

/-! ## One event -/

/-- Sending an attempt: the next one may follow. -/
private theorem send_delivering {sub : Subscription} {topic : String} {record : EventRecord}
    {o n : Nat} {b : Int} {h : Handle} (j : Job) (c : Choice) (frame : Frame) (hinv : Inv R s)
    (hD : Delivering R i sub topic record o n b s) (hh : Holds sub h s) :
    Inv R (s.next i (.send h.sub record n frame) c.result s.state) ∧
      (contract R).guar j i s (s.next i (.send h.sub record n frame) c.result s.state) ∧
      Delivering R i sub topic record o (n + 1) b
        (s.next i (.send h.sub record n frame) c.result s.state) ∧
      Holds sub h (s.next i (.send h.sub record n frame) c.result s.state) := by
  obtain rfl : record.topic = topic := hD.lies.topic
  obtain ⟨row, hrow, halike⟩ := hD.row
  have hid := hh.2.subscriptionId
  have hoff : Cursor.offsetOf record.cursor = .ok o := by
    simp [Cursor.offsetOf, hD.decodes, Except.map]
  have hlock : s.state.locks.get? h.sub.subscriptionId = some i := by rw [hid]; exact hD.lock
  have hsent : ∀ t, sends (s.next i (.send h.sub record n frame) c.result s.state).trace
      sub.subscriptionId t = sends s.trace sub.subscriptionId t ++
        (if record.topic = t then [(o, n)] else []) := by
    intro t
    rw [Snapshot.next_trace, sends_concat]
    congr 1
    by_cases ht : record.topic = t <;> simp [Entry.sent?, hid, ht, hoff]
  have hrow' : s.state.subs.rows.get? h.sub.subscriptionId = some row := by
    rw [hid]
    exact hrow
  refine ⟨hinv.send hrow' ?_ ?_ ?_,
    guar_of_keeps (.send hlock), ?_, hh⟩
  · intro ho
    refine ⟨by rw [hlock]; simp, ?_⟩
    intro x hx
    rw [hoff] at hx
    cases hx
    rw [hid]
    exact hD.next ho
  · intro hg
    rw [hid]
    exact hD.admitted hg
  · intro _ _ x hx
    rw [hid, hx.unique hD.lies]
    exact hD.position
  · have happ : ∀ t, appended (s.next i (.send h.sub record n frame) c.result s.state).trace t =
        appended s.trace t := fun t => by simp [Entry.appended?]
    refine ⟨⟨⟨row, hrow, halike⟩, hD.lock, ?_, ?_⟩, hD.lies, hD.decodes, hD.canonical, ?_, ?_,
      hD.below, hD.declared, hD.position, ?_, ?_, ?_, ?_⟩
    · intro p hp
      simp only [Snapshot.next_trace, added_concat, Entry.added?, Option.toList_none,
        List.append_nil] at hp
      exact hD.added p hp
    · intro hg
      obtain ⟨e, he, hadmits⟩ := hD.admitted hg
      exact ⟨e, by simpa [Entry.takesUp] using he, hadmits⟩
    · rw [happ]; exact hD.recorded
    · rw [happ]; exact hD.unique
    · intro ho t hne p hp
      rw [hsent, if_neg (Ne.symm hne), List.append_nil] at hp
      exact hD.others ho t hne p hp
    · intro ho p hp
      rw [hsent, if_pos rfl] at hp
      rcases List.mem_append.mp hp with hp | hp
      · exact hD.sent ho p hp
      · rw [List.mem_singleton.mp hp]
    · intro _
      rw [hsent, if_pos rfl]
      exact mayFollow_next _ o n
    · intro ha
      exact (hD.accounted ha).grows (Grows.send (R := R) (i := i)) hrow

/-- Outside ordered runs nothing is asked of a task that gives up. -/
private theorem Serving.resting {sub : Subscription} (h : Serving R i sub s)
    (hno : R.ordered = true → False) : Resting R i sub s :=
  ⟨h, fun ho => (hno ho).elim⟩

/-- The attempts of an ordered run are few enough to be counted. -/
private theorem attempts_lt {n : Nat} (hn : n ≤ 1025) : n < 10 ^ Cursor.maxStrDigits := by
  have : Cursor.maxStrDigits < 10 ^ Cursor.maxStrDigits := Nat.lt_pow_self (by decide)
  have : Cursor.maxStrDigits = 4300 := rfl
  omega

/-- One attempt of the event in hand. -/
private theorem attempt_safe {sub : Subscription} {topic : String}
    {record : EventRecord} {o n : Nat} {b : Int} {h : Handle} (hn : R.ordered = true → n ≤ 1025)
    (hD : Delivering R i sub topic record o n b s) (hh : Holds sub h s) :
    Triple R j i (attemptSend cfg h record n)
      (fun result s => (Delivering R i sub topic record o (n + 1) b s ∧ Holds sub h s) ∧
        (R.ordered = true → result.Waits cfg n) ∧ (R.acked = true → result.ack = true))
      (Resting R i sub) s := by
  refine attemptSend_safe
    (A := fun s => Delivering R i sub topic record o n b s ∧ Holds sub h s)
    (.of_interferes fun _ _ hr h => ⟨h.1.interferes hr, h.2.interferes hr⟩) ⟨hD, hh⟩ ?_
    hD.canonical ?_ ?_
  · intro s h
    rw [h.1.lies.topic]
    exact h.1.declared
  · intro s h hge
    refine h.1.toServing.resting fun ho => ?_
    have := attempts_lt (hn ho)
    omega
  · rintro s c frame hinv ⟨hD, hh⟩ hadm
    obtain ⟨h₁, h₂, h₃, h₄⟩ := send_delivering j c frame hinv hD hh
    refine ⟨h₁, h₂, fun result hres => ⟨⟨h₃, h₄⟩, fun ho => ?_, fun hk => ?_⟩, fun e he => ?_⟩
    · obtain ⟨result', hok, hwaits⟩ := hadm.1 ho
      rw [hres] at hok
      cases hok
      exact hwaits
    · obtain ⟨result', hok, hack⟩ := hadm.2.2 hk
      rw [hres] at hok
      cases hok
      exact hack
    · refine h₃.toServing.resting fun ho => ?_
      obtain ⟨result, hok, -⟩ := hadm.1 ho
      rw [hok] at he
      cases he

/-- One attempt, and the attempts after it if it is to be repeated. -/
private theorem deliverInline_round {sub : Subscription} {topic : String}
    {record : EventRecord} {o n remaining : Nat} {h : Handle} (hn : (n : Int) ≤ cfg.maxAttempts)
    (hfew : R.ordered = true → n ≤ 1025)
    (hD : Delivering R i sub topic record o n (o - 1) s) (hh : Holds sub h s)
    (hnext : ∀ s : Snapshot cfg fuel, (n : Int) < cfg.maxAttempts → (R.ordered = true → n + 1 ≤ 1025) →
      Delivering R i sub topic record o (n + 1) (o - 1) s → Holds sub h s →
      Triple R j i (deliverInline cfg h record (n + 1) remaining)
        (fun h' s => Scanned R i sub topic o s ∧ Holds sub h' s) (Resting R i sub) s) :
    Triple R j i (deliverInline cfg h record n (remaining + 1))
      (fun h' s => Scanned R i sub topic o s ∧ Holds sub h' s) (Resting R i sub) s := by
  unfold deliverInline
  refine .bind (attempt_safe hfew hD hh) ?_
  rintro result s ⟨⟨hD, hh⟩, hwaits, -⟩
  split
  · exact onDelivered_safe hD hh
  · rename_i hack
    split
    · exact .bind (onTerminal_safe hD hh) (fun _ s h => .pure h)
    · rename_i hlast
      simp only [Bool.or_eq_true, Bool.not_eq_true', decide_eq_true_eq, not_or,
        Bool.not_eq_false] at hlast
      have hlt : (n : Int) < cfg.maxAttempts := by omega
      have hnext' : R.ordered = true → n ≤ 1024 := fun ho =>
        (hwaits ho (by simpa using hack) hlast.1).resolve_left hlast.2
      have hst : Stable R j i fun s : Snapshot cfg fuel =>
          Delivering R i sub topic record o (n + 1) (o - 1) s ∧ Holds sub h s :=
        .of_interferes fun _ _ hr h => ⟨h.1.interferes hr, h.2.interferes hr⟩
      refine .bind (recordAttempt_safe hst ⟨hD, hh⟩) ?_
      rintro _ s ⟨hA, _⟩
      refine .bind (P := fun _ s => Delivering R i sub topic record o (n + 1) (o - 1) s ∧
        Holds sub h s) (.orRaise (fun _ _ => hA) ?_) ?_
      · -- the delay before the last attempt is the longest that has to be computed
        intro e he
        refine hA.1.toServing.resting fun ho => ?_
        have hpower : n - 1 < 1024 := by
          have := hnext' ho
          omega
        simp [backoffDelay, hpower] at he
      · intro delay s hA
        refine .bind (P := fun _ s => Delivering R i sub topic record o (n + 1) (o - 1) s ∧
          Holds sub h s) (.look rfl rfl hst hA) ?_
        intro _ s hA
        exact hnext s hlt (fun ho => Nat.succ_le_succ (hnext' ho)) hA.1 hA.2

/-- The attempts of an event, one after the other. -/
theorem deliverInline_safe {sub : Subscription} {topic : String}
    {record : EventRecord} {o : Nat} (remaining : Nat) :
    ∀ {n : Nat} {h : Handle} {s : Snapshot cfg fuel}, (n : Int) + remaining = cfg.maxAttempts →
      (R.ordered = true → n ≤ 1025) →
      Delivering R i sub topic record o n (o - 1) s → Holds sub h s →
      Triple R j i (deliverInline cfg h record n (remaining + 1))
        (fun h' s => Scanned R i sub topic o s ∧ Holds sub h' s) (Resting R i sub) s := by
  induction remaining with
  | zero =>
    intro n h s hn hfew hD hh
    exact deliverInline_round (by omega) hfew hD hh fun _ hlt => by omega
  | succ remaining ih =>
    intro n h s hn hfew hD hh
    exact deliverInline_round (by omega) hfew hD hh fun _ _ hfew' => ih (by omega) hfew'

/-- Queueing a retry for an event that was appended. -/
theorem enqueue_safe {item : RetryItem} {E : Snapshot cfg fuel → Prop}
    (hst : ∀ s s', Interferes R i s s' → A s → A s') (hA : A s) (howes : ∀ s, A s → s.Owes item) :
    Triple R j i (perform (.enqueue item)) (fun _ s => A s) E s := by
  refine .call (.of_interferes hst) hA ?_
  intro s c r w' hinv hA _ hex
  obtain ⟨hfree, rfl⟩ := World.enqueue_of_exec hex
  have hkept := queueKept_enqueue (i := i) hfree
  refine ⟨hinv.requeue rfl hkept ?_, guar_of_keeps (.requeue rfl hkept),
    hst _ _ (.requeue rfl rfl hkept) hA⟩
  intro id queued hqueued
  simp only [RetryQueue.enqueue, Dict.get?_set] at hqueued
  split at hqueued
  · rename_i hid
    cases hqueued
    exact ⟨hid.symm, howes s hA⟩
  · exact hinv.queue id queued hqueued

/-- A first attempt, with the rest of them left to the retry queue. -/
theorem deliverQueued_safe (hfit : R.Fits cfg) (hqueue : cfg.retryQueue = true)
    {sub : Subscription} {topic : String} {record : EventRecord} {o : Nat} {h : Handle}
    (hD : Delivering R i sub topic record o 1 (o - 1) s) (hh : Holds sub h s) :
    Triple R j i (deliverQueued cfg h record)
      (fun h' s => Scanned R i sub topic o s ∧ Holds sub h' s) (Resting R i sub) s := by
  -- what is acked never comes into the queue
  have hno : R.ordered = true → R.acked = true := fun ho => by
    simpa [hqueue] using hfit.ordered ho
  have hna : R.accounted = true → R.acked = true := fun ha => by
    simpa [hqueue] using hfit.accounted ha
  have hst : ∀ s s' : Snapshot cfg fuel, Interferes R i s s' →
      (Delivering R i sub topic record o 2 (o - 1) s ∧ Holds sub h s) →
      Delivering R i sub topic record o 2 (o - 1) s' ∧ Holds sub h s' :=
    fun _ _ hr h => ⟨h.1.interferes hr, h.2.interferes hr⟩
  obtain rfl : record.topic = topic := hD.lies.topic
  unfold deliverQueued
  refine .bind (attempt_safe (fun _ => by omega) hD hh) ?_
  rintro result s ⟨⟨hD, hh⟩, -, hacked⟩
  split
  · exact onDelivered_safe hD hh
  rename_i hack
  have hunacked : R.acked = true → False := fun hk => hack (hacked hk)
  split
  · exact .bind (onTerminal_safe hD hh) (fun _ s h => .pure h)
  refine .bind (recordAttempt_safe (.of_interferes hst) ⟨hD, hh⟩) ?_
  rintro _ s ⟨hA, _⟩
  refine .bind (uuid_safe (.of_interferes hst) hA) ?_
  intro hex s hA
  refine .bind (P := fun _ s => Delivering R i sub record.topic record o 2 (o - 1) s ∧ Holds sub h s)
    (.look rfl rfl (.of_interferes hst) hA) ?_
  intro now s hA
  refine .bind (P := fun _ s => Delivering R i sub record.topic record o 2 (o - 1) s ∧ Holds sub h s)
    (.orRaise (fun _ _ => hA) (fun _ _ => hA.1.toServing.resting fun ho => hunacked (hno ho))) ?_
  intro delay s hA
  refine .bind (P := fun _ s => Delivering R i sub record.topic record o 2 (o - 1) s ∧ Holds sub h s)
    (enqueue_safe hst hA fun s hA => ⟨Nat.le_refl _, record, hA.1.recorded, rfl, rfl⟩) ?_
  intro _ s hA
  have hset : Delivering R i sub record.topic record o 2 o s :=
    { hA.1 with accounted := fun ha => (hunacked (hna ha)).elim }
  have hdone := Triple.bind (j := j) (f := fun _ => pure h)
    (Q := fun h' s => Scanned R i sub record.topic o s ∧ Holds sub h' s)
    (setPosition_safe (E := Resting R i sub) hset hA.2) (fun _ s h => .pure h)
  rw [Prog.bind_assoc] at hdone
  exact hdone

/-- One event, whatever the transport answers. -/
theorem deliverOne_safe (hfit : R.Fits cfg) {sub : Subscription} {topic : String}
    {record : EventRecord} {o : Nat} {h : Handle}
    (hD : Delivering R i sub topic record o 1 (o - 1) s) (hh : Holds sub h s)
    (hskip : cfg.retryQueue = false → cfg.maxAttempts ≤ 0 → Scanned R i sub topic o s) :
    Triple R j i (deliverOne cfg h record)
      (fun h' s => Scanned R i sub topic o s ∧ Holds sub h' s) (Resting R i sub) s := by
  unfold deliverOne
  split
  · rename_i hqueue
    exact deliverQueued_safe hfit hqueue hD hh
  · rename_i hqueue
    cases hmax : cfg.maxAttempts.toNat with
    | zero => exact .pure ⟨hskip (by simpa using hqueue) (by omega), hh⟩
    | succ remaining => exact deliverInline_safe remaining (by omega) (fun _ => by omega) hD hh

/-! ## Pages -/

section Page

variable {sub : Subscription} {topic : String} {scan : Int} {record : EventRecord}
  {rest : List EventRecord} {o : Nat}

/-- An event that was scanned already. -/
private theorem Fetched.skip {id : String} (h : Fetched id topic scan (record :: rest) s)
    (ho : record.LiesAt topic o) (hle : (o : Int) ≤ scan) : Fetched id topic scan rest s := by
  refine ⟨⟨fun q hq => h.appended q (.tail _ hq), fun q hq => h.canonical q (.tail _ hq),
    h.sorted.of_cons⟩, fun q hq => h.below q (.tail _ hq), fun q hq => h.unique q (.tail _ hq), ?_⟩
  intro q hq x hx hlt
  rcases h.covers q hq x hx hlt with hmem | hafter | hpass
  · rcases List.mem_cons.mp hmem with rfl | hmem
    · have := hx.unique ho
      omega
    · exact .inl hmem
  · exact .inr (.inl fun q' hq' => hafter q' (.tail _ hq'))
  · exact .inr (.inr hpass)

/-- The rest of a page, from the event that was scanned last. -/
private theorem Fetched.advance {id : String} (h : Fetched id topic scan (record :: rest) s)
    (ho : record.LiesAt topic o) (hlt : scan < o) : Fetched id topic o rest s := by
  have hpast : Fetched id topic o (record :: rest) s :=
    { h with covers := fun q hq x hx hgt => h.covers q hq x hx (by omega) }
  exact hpast.skip ho (Int.le_refl _)

/-- The events between the last one scanned and the next of the page were passed by. -/
private theorem Fetched.accounted (h : Fetched sub.subscriptionId topic scan (record :: rest) s)
    (ho : record.LiesAt topic o) (hacc : s.AccountedUpTo sub.subscriptionId topic scan) :
    s.AccountedUpTo sub.subscriptionId topic (o - 1) := by
  intro p hp hid
  obtain ⟨x, hx, hbelow⟩ := h.below record (.head _)
  have hxo := ho.unique hx
  refine ⟨.inl (by omega), ?_⟩
  intro q hq y hy hlt hle
  rcases Int.lt_or_le scan y with hgt | hdone
  · rcases h.covers q hq y hy hgt with hmem | hafter | hpass
    · rcases List.mem_cons.mp hmem with rfl | hmem
      · have := hy.unique ho
        omega
      · have := (List.pairwise_cons.mp h.sorted).1 q hmem o y ho hy
        omega
    · have := hafter record (.head _) o ho
      omega
    · exact .inr (.inl (by rw [hid]; exact hpass))
  · exact (hacc p hp hid).2 q hq y hy hlt hdone

/-- The next event of the page may be delivered. -/
private theorem Scanned.delivering (hs : Scanned R i sub topic scan s)
    (hf : Fetched sub.subscriptionId topic scan (record :: rest) s)
    (ht : ∃ t, TopicOf topic t s) (ho : record.LiesAt topic o)
    (hsplit : Cursor.split record.cursor = .ok (topic, o)) (hlt : scan < o) :
    Delivering R i sub topic record o 1 (o - 1) s := by
  have hpos := hs.position
  obtain ⟨x, hx, hbelow⟩ := hf.below record (.head _)
  refine ⟨hs.toServing, ho, hsplit, hf.canonical record (.head _), hf.appended record (.head _),
    fun q hq hq' => hf.unique record (.head _) q hq o ho hq', by rw [ho.unique hx]; exact hbelow, ht,
    by omega, ?_, ?_, ?_, fun ha => hf.accounted ho (hs.accounted ha)⟩
  · exact fun hord t _ p hp => hs.caughtUp hord t p hp
  · intro hord p hp
    have := hs.caughtUp hord topic p hp
    omega
  · intro hord
    refine mayFollow_first fun p hp => ?_
    have := hs.caughtUp hord topic p hp
    omega

/-- The scan moves on to an event that is accounted for. -/
private theorem Scanned.next (hs : Scanned R i sub topic scan s) (hlt : scan < o)
    (hbelow : o < s.state.store.count topic)
    (hacc : R.accounted = true → s.AccountedUpTo sub.subscriptionId topic o) :
    Scanned R i sub topic o s := by
  have := hs.position
  exact ⟨hs.toResting, by omega, .inr (by omega), hacc⟩

/-- The position follows the scan. -/
private theorem Scanned.positioned (hinv : Inv R s) (hs : Scanned R i sub topic scan s)
    (hlt : s.state.subs.position sub.subscriptionId topic < scan) :
    Inv R (s.positioned i sub.subscriptionId topic scan) ∧
      (contract R).guar j i s (s.positioned i sub.subscriptionId topic scan) ∧
      Scanned R i sub topic scan (s.positioned i sub.subscriptionId topic scan) := by
  have hbelow : scan < s.state.store.count topic := hs.below.resolve_left (by omega)
  refine hs.toServing.positioned hinv hs.position hbelow
    (fun ho t _ p hp => hs.caughtUp ho t p hp) ?_ hs.accounted
  intro ho p hp
  have := hs.caughtUp ho topic p hp
  omega

/-- An event that the selector does not match is accounted for. -/
private theorem Scanned.pass (hs : Scanned R i sub topic scan s)
    (hf : Fetched sub.subscriptionId topic scan (record :: rest) s) {topicModel : Topic}
    (ht : TopicOf topic topicModel s) (ho : record.LiesAt topic o) (hlt : scan < o)
    (hm : selectorMatches cfg.lower sub.selector (rawEventDict record) topicModel.filterableFields
      = .ok false) : Scanned R i sub topic o s := by
  obtain ⟨x, hx, hbelow⟩ := hf.below record (.head _)
  rw [← ho.unique hx] at hbelow
  refine hs.next hlt hbelow fun ha p hp hid => ?_
  refine ⟨.inl (by omega), ?_⟩
  intro q hq y hy hgt hle
  by_cases heq : y = o
  · subst heq
    obtain rfl := hf.unique record (.head _) q hq y ho hy
    obtain ⟨log, hlog, rfl⟩ := ht
    exact .inl ⟨log, hlog, by rw [(hs.added p hp hid).selector]; exact hm⟩
  · exact (hf.accounted ho (hs.accounted ha) p hp hid).2 q hq y hy hgt (by omega)

end Page

/-- A page that was read under the lock. -/
theorem scanPage_safe (hfit : R.Fits cfg) {sub : Subscription} {topic : String}
    {topicModel : Topic} (records : List EventRecord) :
    ∀ {scan : Int} {processed : Nat} {h : Handle} {s : Snapshot cfg fuel},
      Scanned R i sub topic scan s → Holds sub h s → TopicOf topic topicModel s →
      Fetched sub.subscriptionId topic scan records s →
      Triple R j i (scanPage cfg topicModel scan processed h records)
        (fun r s => Scanned R i sub topic r.1 s ∧ Holds sub r.2.2 s) (Resting R i sub) s := by
  induction records with
  | nil =>
    intro scan processed h s hs hh _ _
    exact .pure ⟨hs, hh⟩
  | cons record rest ih =>
    intro scan processed h s hs hh ht hf
    obtain ⟨o, ho, -⟩ := hf.below record (.head _)
    have hrest : ∀ (h' : Handle) (s : Snapshot cfg fuel), scan < o →
        (Scanned R i sub topic o s ∧ Holds sub h' s) ∧ TopicOf topic topicModel s ∧
          Fetched sub.subscriptionId topic scan (record :: rest) s →
        Triple R j i (scanPage cfg topicModel o (processed + 1) h' rest)
          (fun r s => Scanned R i sub topic r.1 s ∧ Holds sub r.2.2 s) (Resting R i sub) s :=
      fun h' s hlt hA => ih hA.1.1 hA.1.2 hA.2.1 (hA.2.2.advance ho hlt)
    unfold scanPage
    refine .orRaise_bind ?_ (fun _ _ => hs.toResting)
    intro n hoff
    obtain rfl := ho.offsetOf hoff
    split
    · rename_i hle
      exact ih hs hh ht (hf.skip ho hle)
    · rename_i hgt
      have hlt : scan < n := by omega
      refine .orRaise_bind ?_ (fun _ _ => hs.toResting)
      intro matched hm
      rw [hh.2.selector] at hm
      cases matched with
      | false =>
        simp only [Bool.false_eq_true, if_false]
        exact .bind (.pure ⟨⟨hs.pass hf ht ho hlt hm, hh⟩, ht, hf⟩) (fun h' s => hrest h' s hlt)
      | true =>
        simp only [if_true]
        have hD := hs.delivering hf ⟨_, ht⟩ ho (ho.split hoff) hlt
        have hdeliver := deliverOne_safe (j := j) hfit hD hh ?_
        · refine .bind ((hdeliver.frame (A := fun s => TopicOf topic topicModel s ∧
            Fetched sub.subscriptionId topic scan (record :: rest) s) ?_ ⟨ht, hf⟩).mono
            (fun _ _ h => h) (fun _ h => h.1)) (fun h' s => hrest h' s hlt)
          exact fun _ _ hg h => ⟨h.1.grows hg, h.2.grows hg⟩
        · intro hqueue hmax
          refine hs.next hlt hD.below fun ha => ?_
          rcases hfit.accounted ha with ⟨-, hattempts⟩ | ⟨hqueued, -⟩
          · omega
          · rw [hqueue] at hqueued
            cases hqueued

/-! ## Topics -/

/-- Page after page, from the position on. -/
theorem catchUpPages_safe (hfit : R.Fits cfg) {sub : Subscription} {topic : String}
    {topicModel : Topic} (rounds : Nat) :
    ∀ {processed : Nat} {h : Handle} {s : Snapshot cfg fuel}, Resting R i sub s → Holds sub h s →
      TopicOf topic topicModel s →
      Triple R j i (catchUpPages cfg topicModel topic processed h rounds)
        (fun r s => Resting R i sub s ∧ Holds sub r.2 s) (Resting R i sub) s := by
  induction rounds with
  | zero =>
    intro processed h s _ _ _
    trivial
  | succ rounds ih =>
    intro processed h s hs hh ht
    unfold catchUpPages
    have hA : ∀ (x : Int) (s s' : Snapshot cfg fuel), Interferes R i s s' →
        ((Scanned R i sub topic x s ∧ Holds sub h s ∧ TopicOf topic topicModel s) ∧
          s.state.subs.position sub.subscriptionId topic = x) →
        (Scanned R i sub topic x s' ∧ Holds sub h s' ∧ TopicOf topic topicModel s') ∧
          s'.state.subs.position sub.subscriptionId topic = x :=
      fun x s s' hr h => ⟨⟨h.1.1.interferes hr, h.1.2.1.interferes hr, h.1.2.2.grows hr.toGrows⟩,
        ((hr.protects _ h.1.1.lock).position topic).trans h.2⟩
    refine .bind (P := fun d s => (Scanned R i sub topic (d.getD topic (-1)) s ∧ Holds sub h s ∧
      TopicOf topic topicModel s) ∧
        s.state.subs.position sub.subscriptionId topic = d.getD topic (-1)) ?_ ?_
    · refine .read (A := fun s => Resting R i sub s ∧ Holds sub h s ∧ TopicOf topic topicModel s)
        rfl rfl (.of_interferes fun _ _ hr h => ⟨h.1.interferes hr, h.2.1.interferes hr,
          h.2.2.grows hr.toGrows⟩) ⟨hs, hh, ht⟩ ?_
      rintro s c d hinv _ hex ⟨hs, hh, ht⟩
      simp only [World.exec, Option.some.injEq, Prod.mk.injEq, and_true] at hex
      have hpos : d.getD topic (-1) = s.state.subs.position sub.subscriptionId topic := by
        rw [← hex, hh.2.subscriptionId]
        rfl
      rw [hpos]
      refine ⟨⟨⟨hs, Int.le_refl _, .inl (Int.le_refl _), fun ha => ?_⟩, hh, ht⟩, rfl⟩
      obtain ⟨row, hrow, -⟩ := hs.row
      exact (hinv.accounts ha _ _).grows (Interferes.read (R := R) (i := i) rfl rfl d).toGrows hrow
    · intro d s hd
      refine .orRaise_bind ?_ (fun _ _ => hd.1.1.toResting)
      intro from_ hfrom
      refine .bind ((readPage_safe sub.subscriptionId (.of_interferes (hA _)) hd
        (fun s h => ⟨h.1.1.lock, h.2⟩) (cursorAt_ok hfrom)).mono (fun _ _ h => h)
        (fun _ h => h.1.1.toResting)) ?_
      rintro records s ⟨⟨⟨hs, hh, ht⟩, _⟩, hf⟩
      split
      · exact .pure ⟨hs.toResting, hh⟩
      · refine .bind (((scanPage_safe hfit records hs hh ht hf).frame
          (fun _ _ hg h => h.grows hg) ht).mono (fun _ _ h => h) (fun _ h => h.1)) ?_
        rintro ⟨scan, processed', h'⟩ s ⟨⟨hs, hh⟩, ht⟩
        simp only at hs hh ⊢
        refine .bind (P := fun _ s => Resting R i sub s ∧ Holds sub h' s ∧
          TopicOf topic topicModel s) ?_ (fun _ s h => ih h.1 h.2.1 h.2.2)
        rw [hh.2.subscriptionId]
        refine raiseHighWater_safe
          (A := fun s => Scanned R i sub topic scan s ∧ Holds sub h' s ∧ TopicOf topic topicModel s)
          (.of_interferes fun _ _ hr h => ⟨h.1.interferes hr, h.2.1.interferes hr,
            h.2.2.grows hr.toGrows⟩) ⟨hs, hh, ht⟩ (fun _ _ hr h => h.1.toServing.pin hr _) ?_ ?_
        · exact fun s h _ => ⟨h.1.toResting, h.2⟩
        · intro s hinv h hlt
          obtain ⟨h₁, h₂, h₃⟩ := h.1.positioned (j := j) hinv hlt
          exact ⟨h₁, h₂, h₃.toResting, h.2⟩

theorem catchUp_safe (hfit : R.Fits cfg) {sub : Subscription} {topic : String} {rounds : Nat}
    {h : Handle} (hs : Resting R i sub s) (hh : Holds sub h s) :
    Triple R j i (catchUp cfg rounds h topic)
      (fun r s => Resting R i sub s ∧ Holds sub r.2 s) (Resting R i sub) s := by
  unfold catchUp
  refine .bind (getTopic_safe (A := fun s => Resting R i sub s ∧ Holds sub h s)
    (.of_interferes fun _ _ hr h => ⟨h.1.interferes hr, h.2.interferes hr⟩) ⟨hs, hh⟩
    (fun _ h _ => h.1)) ?_
  rintro topicModel s ⟨⟨hs, hh⟩, ht, _⟩
  exact catchUpPages_safe hfit rounds hs hh ht

theorem catchUpAll_safe (hfit : R.Fits cfg) {sub : Subscription} {rounds : Nat}
    (topics : List String) :
    ∀ {processed : Nat} {h : Handle} {s : Snapshot cfg fuel}, Resting R i sub s → Holds sub h s →
      Triple R j i (catchUpAll cfg rounds processed h topics) (fun _ s => Resting R i sub s)
        (Resting R i sub) s := by
  induction topics with
  | nil =>
    intro processed h s hs _
    exact .pure hs
  | cons topic rest ih =>
    intro processed h s hs hh
    exact .bind (catchUp_safe hfit hs hh) fun r s h => ih h.1 h.2

/-! ## The job -/

/-- Taking the lock: the task starts from the positions it finds. -/
private theorem acquire_safe {h : Handle} {E : Snapshot cfg fuel → Prop} (hh : Refers h s)
    (hadm : R.gated = true → Snapshot.Admitted s.trace i h.sub.subscriptionId) :
    Triple R j i (perform (.acquire h.sub.subscriptionId))
      (fun _ s => Resting R i h.sub s ∧ Holds h.sub h s) E s := by
  refine .call (A := fun s => Refers h s ∧
    (R.gated = true → Snapshot.Admitted s.trace i h.sub.subscriptionId))
    (.of_interferes fun s s' hr h => ⟨h.1.grows hr.toGrows, fun hg => ?_⟩) ⟨hh, hadm⟩ ?_
  · obtain ⟨e, he, hadmits⟩ := h.2 hg
    exact ⟨e, hr.takeUp.trans he, hadmits⟩
  · rintro s c r w' hinv ⟨⟨row, hrow, halike⟩, hadm⟩ _ hex
    obtain ⟨hfree, rfl⟩ := World.acquire_of_exec hex
    refine ⟨hinv.acquire hrow, guar_of_keeps (.acquire hfree),
      ⟨⟨⟨row, hrow, halike⟩, by simp, ?_, ?_⟩, ?_⟩, ⟨row, hrow, halike⟩, .refl _⟩
    · intro p hp hid
      rw [added_next rfl] at hp
      obtain ⟨row', hrow', halike'⟩ := hinv.rows.added p hp
      rw [hid, hrow] at hrow'
      cases hrow'
      exact halike'.symm.trans halike
    · intro hg
      obtain ⟨e, he, hadmits⟩ := hadm hg
      exact ⟨e, by simpa [Entry.takesUp] using he, hadmits⟩
    · intro ho t p hp
      rw [sends_next rfl] at hp
      exact (hinv.ordered ho).caughtUp _ hfree t p hp

private theorem release_safe {sub : Subscription} {h : Handle} {E : Snapshot cfg fuel → Prop}
    (hs : Resting R i sub s) (hid : h.sub.subscriptionId = sub.subscriptionId) :
    Triple R j i (perform (.release h.sub.subscriptionId)) (fun _ _ => True) E s := by
  refine .callLocal rfl ?_
  intro c r w' hinv hex
  simp only [World.exec, Option.some.injEq, Prod.mk.injEq] at hex
  obtain ⟨-, rfl⟩ := hex
  rw [hid]
  exact ⟨hinv.release hs.caughtUp, guar_of_keeps (.release hs.lock), trivial⟩

/-- Asking for the authorization of a subscription that was found active. -/
private theorem authorizeDelivery_safe {h : Handle} {E : Snapshot cfg fuel → Prop} (hh : Refers h s)
    (hsees : R.gated = true → h.sub.status = .active ∧ Sees h s) :
    Triple R j i (perform (.authorizeDelivery h)) (fun r s => Refers h s ∧
      (r = true → R.gated = true → Snapshot.Admitted s.trace i h.sub.subscriptionId)) E s := by
  refine .readLocal rfl rfl ?_
  intro c r _ hex
  simp only [World.exec, Option.some.injEq, Prod.mk.injEq, and_true] at hex
  refine ⟨hh, fun hr hg => ?_⟩
  obtain ⟨hactive, hsees⟩ := hsees hg
  refine ⟨⟨i, .authorizeDelivery h, r, s.state⟩, by simp [Entry.takesUp], ?_⟩
  exact ⟨rfl, hactive, hsees.running hactive, hex.trans hr, hsees.current⟩

theorem dispatchSubscription_safe (hfit : R.Fits cfg) {rounds : Nat} {h : Handle}
    {topics : Option (List String)} (hh : Refers h s) :
    Triple R j i (dispatchSubscription cfg rounds h topics) (fun _ _ => True) (fun _ => True) s := by
  unfold dispatchSubscription
  refine .bind (isActive_safe (A := fun _ => True) (.of_interferes fun _ _ _ h => h) trivial hh) ?_
  rintro ⟨active, h₁⟩ s ⟨_, hh₁, _, hsees⟩
  cases active with
  | false => exact .pure trivial
  | true =>
    refine .bind (authorizeDelivery_safe hh₁ fun hg => hsees (.inl hg) rfl) ?_
    rintro allowed s ⟨hh₁, hadm⟩
    cases allowed with
    | false => exact .pure trivial
    | true =>
      refine .bind (acquire_safe hh₁ (hadm rfl)) ?_
      rintro _ s ⟨hs, hh₁⟩
      refine .bind ((catchUpAll_safe hfit _ hs hh₁).attempt (Q := fun _ s => Resting R i h₁.sub s)
        (fun _ _ h => h) (fun _ _ h => h)) ?_
      intro outcome s hs
      refine .bind (release_safe hs rfl) ?_
      exact fun _ s _ => .orRaise (fun _ _ => trivial) (fun _ _ => trivial)

end A2AEvents
