import A2AEvents.Spec.LifecycleSafe

/-!
# Explicit acks and retries

The calls that move positions without the dispatch lock. Nothing but time and grants
changes beside them, so a task may rely on the rows, positions and queue it found.

## Key results

- `ack_safe`: an explicit ack
- `retryDelivery_safe`: one queued delivery; the item is removed for a reason only
- `runOnce_safe`: a pass of the retry worker
-/

namespace A2AEvents

open Async Publisher

variable {cfg : PublisherConfig} {fuel : Nat} {R : Regime} {j : Job} {i : Nat}
  {s s' : Snapshot cfg fuel} {A : Snapshot cfg fuel → Prop}

/-- The guarantee of an exclusive job. -/
theorem guar_of_grows (hj : R.exclusive j = true) (h : Grows R s s') :
    (contract R).guar j i s s' := by
  simp only [contract, hj, if_true]
  exact h

/-- In an exclusive job an assertion is firm if it survives whatever leaves the queue alone. -/
theorem Firm.of_grows (hj : R.exclusive j = true)
    (h : ∀ s s', Grows R s s' → s'.state.queue = s.state.queue → A s → A s') : Firm R j i A :=
  ⟨.of_idles hj fun s s' hr => h s s' hr.toGrows hr.queue, fun s s' hr hq _ => h s s' hr.toGrows hq⟩

/-- Nobody else moves positions beside an exclusive job. -/
theorem position_pin (hj : R.exclusive j = true) (hr : (contract R).rely j i s s')
    (id topic : String) : s'.state.subs.position id topic = s.state.subs.position id topic := by
  simp only [contract, hj, if_true] at hr
  simp only [SubscriptionStore.position, SubscriptionStore.highWater, hr.positions]

theorem Regime.exclusive_of_isRetry (R : Regime) (hj : j.isRetry = true) :
    R.exclusive j = true := by
  cases j <;> first | rfl | simp [Job.isRetry] at hj

/-! ## Explicit acks -/

/-- The row of a subscription has lapsed. -/
private def LapsedRow (id : String) (s : Snapshot cfg fuel) : Prop :=
  ∃ row, s.state.subs.rows.get? id = some row ∧ row.Lapsed s.state.clock

private theorem LapsedRow.stays {id : String} (hg : Grows R s s') (hx : StaysLapsed s s')
    (hlive : s.state.subs.backend = .live) (h : LapsedRow id s) : LapsedRow id s' := by
  obtain ⟨row, hrow, hl⟩ := h
  obtain ⟨row', hrow', -⟩ := hg.rows id row hrow
  exact ⟨row', hrow', (hx hlive id row row' hrow hrow').2 hl⟩

/-- The cursor of an ack names an event below the head, or the subscription has lapsed. -/
private def Acks (R : Regime) (id cursor : String) (row : Subscription) (s : Snapshot cfg fuel) :
    Prop :=
  R.bounded = true → s.state.subs.backend = .live ∧ (LapsedRow id s ∨ ∀ topic o,
    Cursor.split cursor = .ok (topic, o) → topic ∈ row.topics → o < s.state.store.count topic)

private theorem Acks.stays {id cursor : String} {row : Subscription} (hg : Grows R s s')
    (hx : StaysLapsed s s') (h : Acks R id cursor row s) : Acks R id cursor row s' := by
  intro hb
  obtain ⟨hlive, h⟩ := h hb
  refine ⟨hg.backend.trans hlive, h.imp (fun h => h.stays hg hx hlive) fun h topic o ho hmem => ?_⟩
  exact Nat.lt_of_lt_of_le (h topic o ho hmem) (hg.store.count topic)

private theorem firm_acks (hj : R.exclusive j = true) {id cursor : String} (row : Subscription) :
    Firm R j i fun s : Snapshot cfg fuel => Acks R id cursor row s :=
  ⟨fun _ _ hr h => h.stays (interferes_of_rely hr).toGrows (staysLapsed_of_rely (.inr hj) hr),
    fun _ _ hr _ hx h => h.stays hr.toGrows hx⟩

theorem ack_safe {id cursor : String} (hno : R.ordered = false) (hna : R.accounted = false) :
    Triple R (.ack id cursor) i (ack id cursor) (fun _ _ => True) (fun _ => True) s := by
  have hj : R.exclusive (.ack id cursor) = true := rfl
  unfold Publisher.ack
  refine .bind (getActiveSubscription_safe (A := fun _ => True) (B := Acks R id cursor) (.const True)
    (firm_acks hj) trivial ?_) ?_
  · intro s c row r hinv _ hadm hrow hb
    refine ⟨(hinv.bounded hb).backend, ?_⟩
    by_cases hl : row.Lapsed s.state.clock
    · exact .inl ⟨row, hrow, hl⟩
    · exact .inr ((hadm row hrow).2 hb cursor rfl hl)
  rintro h s ⟨hid, ⟨row, hacks, hh, halike⟩, hsees⟩
  refine .orRaise_bind ?_ (fun _ _ => trivial)
  intro topic htopic
  split
  · exact .orRaise (fun _ h => (by cases h)) (fun _ _ => trivial)
  rename_i hmem
  rw [halike.topics, not_not] at hmem
  obtain ⟨o, hsplit, hoff⟩ := Cursor.exists_split htopic
  have hbelow : R.bounded = true → o < s.state.store.count topic := by
    intro hb
    obtain ⟨hactive, hsees⟩ := hsees (.inr hj)
    obtain ⟨hlive, ⟨row', hrow', hl⟩ | hbelow⟩ := hacks hb
    · have hcurrent := hsees.current hlive
      rw [hid, hrow'] at hcurrent
      cases hcurrent
      rcases hl with hne | hle
      · exact absurd hactive hne
      · exact absurd (hsees.running hactive) (Int.not_lt.mpr hle)
    · exact hbelow topic o hsplit hmem
  refine .bind ((advance_safe
    (A := fun s => Refers h s ∧ (R.bounded = true → o < s.state.store.count topic))
    (Q := fun _ => True) ?_ ⟨hh, hbelow⟩ hh ?_
    (.const True) (fun _ _ hr _ => position_pin hj hr _ _) (fun _ _ _ _ _ => trivial) ?_
    (fun _ _ _ _ => trivial) (fun _ _ _ => trivial)).mono (fun _ _ h => h) (fun _ h => h)) ?_
  · refine .of_interferes fun s s' hr h => ⟨h.1.grows hr.toGrows, fun hb => ?_⟩
    exact Nat.lt_of_lt_of_le (h.2 hb) (hr.store.count topic)
  · exact fun s h hb => ⟨o, hsplit, h.2 hb⟩
  · rintro s n hinv ⟨⟨row, hrow, _⟩, hlt⟩ hn hgt
    rw [hoff] at hn
    cases hn
    have hmono : R.monotone = true → s.state.subs.position h.sub.subscriptionId topic ≤ (o : Int) :=
      fun _ => Int.le_of_lt hgt
    refine ⟨hinv.setHighWater hrow hmono (fun hb => Int.ofNat_lt.mpr (hlt hb)) ?_ ?_,
      guar_of_grows hj (.setHighWater hmono), trivial⟩
    · exact fun h => (by cases (hno.symm.trans h))
    · exact fun h => (by cases (hna.symm.trans h))
  · exact fun _ _ _ => .pure trivial

/-! ## Items in the hands of the task -/

theorem RetryItem.Alike.symm {a b : RetryItem} (h : a.Alike b) : b.Alike a :=
  ⟨h.1.symm, h.2.symm, h.3.symm, h.4.symm, h.5.symm⟩

theorem Snapshot.Owes.grows {item : RetryItem} (h : s.Owes item) (hg : Grows R s s') :
    s'.Owes item := by
  obtain ⟨hattempt, r, hr, heq⟩ := h
  obtain ⟨l, hl, -⟩ := hg.trace
  refine ⟨hattempt, r, ?_, heq⟩
  rw [hl, appended_append]
  exact List.mem_append_left _ hr

/-- Items that the task is to retry. -/
def Pending (items : List RetryItem) (s : Snapshot cfg fuel) : Prop :=
  ∀ item ∈ items, Matches item s

theorem Pending.grows {items : List RetryItem} (hg : Grows R s s')
    (hqueue : s'.state.queue = s.state.queue) (h : Pending items s) : Pending items s' := by
  intro item hmem
  refine ⟨(h item hmem).1.grows hg, ?_⟩
  rw [hqueue]
  exact (h item hmem).2

theorem World.Released.alike {w : World} {item queued : RetryItem} (h : w.Released item)
    (ha : queued.Alike item) : w.Released queued := by
  unfold World.Released
  rw [ha.subscriptionId, ha.eventId, ha.topic, ha.cursor]
  exact h

/-- Removing an item for which there is a reason. -/
theorem complete_safe {items : List RetryItem} {item : RetryItem} {E : Snapshot cfg fuel → Prop}
    (hst : Stable R j i A) (hA : A s) (hmem : item ∈ items)
    (hpending : ∀ s, A s → Pending items s) (hreleased : ∀ s, A s → s.state.Released item) :
    Triple R j i (perform (.complete item.retryId)) (fun _ s => Pending items s) E s := by
  refine .call hst hA ?_
  intro s c r w' hinv hA _ hex
  simp only [World.exec, Option.some.injEq, Prod.mk.injEq] at hex
  obtain ⟨-, rfl⟩ := hex
  have hpend := hpending s hA
  refine ⟨hinv.complete ?_, guar_of_keeps .complete, ?_⟩
  · exact fun queued hq => (hreleased s hA).alike ((hpend item hmem).2 queued hq)
  · intro other hother
    refine ⟨(hpend other hother).1.grows (R := R) Keeps.complete.toGrows, ?_⟩
    intro queued hq
    simp only [Snapshot.next_state, RetryQueue.complete, Dict.get?_erase] at hq
    split at hq
    · cases hq
    · exact (hpend other hother).2 queued hq

/-- Leaving an item for a later pass. -/
theorem reschedule_safe {items : List RetryItem} {item : RetryItem} {at_ : Time} {n : Nat}
    {err : Option String} {E : Snapshot cfg fuel → Prop} (hst : Stable R j i A) (hA : A s)
    (hn : 1 ≤ n) (hpending : ∀ s, A s → Pending items s) :
    Triple R j i (perform (.reschedule item.retryId at_ n err)) (fun _ s => Pending items s) E s := by
  refine .call hst hA ?_
  intro s c r w' hinv hA _ hex
  simp only [World.exec, Option.some.injEq, Prod.mk.injEq] at hex
  obtain ⟨-, rfl⟩ := hex
  have hpend := hpending s hA
  have hnew : ∀ id queued, (s.state.queue.reschedule item.retryId at_ n err).items.get? id =
      some queued → ∃ old, s.state.queue.items.get? id = some old ∧ queued.Alike old ∧
        (queued = old ∨ queued.attempt = n) := by
    intro id queued hq
    simp only [RetryQueue.reschedule] at hq
    split at hq
    · exact ⟨queued, hq, .refl _, .inl rfl⟩
    · rename_i old hold
      simp only [Dict.get?_set] at hq
      split at hq
      · rename_i hid
        cases hq
        exact ⟨old, by rw [hid]; exact hold, ⟨rfl, rfl, rfl, rfl, rfl⟩, .inr rfl⟩
      · exact ⟨queued, hq, .refl _, .inl rfl⟩
  have hkept : QueueKept s (s.requeued i (.reschedule item.retryId at_ n err) r
      (s.state.queue.reschedule item.retryId at_ n err))
      [⟨i, .reschedule item.retryId at_ n err, r, s.state⟩] := by
    intro id queued hq
    refine .inl ?_
    simp only [Snapshot.next_state, RetryQueue.reschedule]
    split
    · exact ⟨queued, hq, .refl _⟩
    · rename_i old hold
      simp only [Dict.get?_set]
      split
      · rename_i hid
        rw [hid, hold] at hq
        cases hq
        exact ⟨_, rfl, ⟨rfl, rfl, rfl, rfl, rfl⟩⟩
      · exact ⟨queued, hq, .refl _⟩
  refine ⟨hinv.requeue rfl hkept ?_, guar_of_keeps (.requeue rfl hkept), ?_⟩
  · intro id queued hq
    obtain ⟨old, hold, ha, hor⟩ := hnew id queued hq
    obtain ⟨hid, hattempt, q, hq', heq⟩ := hinv.queue id old hold
    refine ⟨ha.retryId.trans hid, ?_, q, by rw [ha.topic]; exact hq', by
      rw [ha.cursor, ha.eventId]; exact heq⟩
    rcases hor with rfl | h
    · exact hattempt
    · omega
  · intro other hother
    refine ⟨(hpend other hother).1.grows (Keeps.requeue (R := R) rfl hkept).toGrows, ?_⟩
    intro queued hq
    obtain ⟨old, hold, ha, -⟩ := hnew _ queued hq
    exact ha.trans ((hpend other hother).2 old hold)

/-! ## The event of an item -/

/-- The event number `o` is the one that the item stands for. -/
structure Found (item : RetryItem) (record : EventRecord) (o : Nat) (s : Snapshot cfg fuel) :
    Prop where
  lies : record.LiesAt item.topic o
  decodes : Cursor.split record.cursor = .ok (item.topic, o)
  eventId : record.eventId = item.eventId
  canonical : ∃ bytes, canonicalize (.obj record.data) = .ok bytes
  below : o < s.state.store.count item.topic
  declared : ∃ t, TopicOf item.topic t s

theorem Found.grows {item : RetryItem} {record : EventRecord} {o : Nat} (hg : Grows R s s')
    (h : Found item record o s) : Found item record o s' := by
  obtain ⟨t, ht⟩ := h.declared
  exact ⟨h.lies, h.decodes, h.eventId, h.canonical,
    Nat.lt_of_lt_of_le h.below (hg.store.count _), t, ht.grows hg⟩

/-- What looking the event of an item up tells: the event, or that it is out of retention. -/
def Answer (item : RetryItem) (s : Snapshot cfg fuel) : Option EventRecord → Prop
  | none => ∀ r ∈ s.state.store.live s.state.clock item.topic, r.cursor ≠ item.cursor
  | some record => ∃ o, Found item record o s

private theorem Answer.next {item : RetryItem} {o : Op} {r : o.Res} {x : Option EventRecord}
    (h : Answer item s x) : Answer item (s.next i o r s.state) x := by
  cases x with
  | none => exact h
  | some record =>
    obtain ⟨n, h₁, h₂, h₃, h₄, h₅, h₆⟩ := h
    exact ⟨n, h₁, h₂, h₃, h₄, h₅, h₆⟩

/-- A page of one event that can only be the wanted one. -/
private theorem answer_page {item : RetryItem} {o : Nat} {start : Int}
    {records : List EventRecord} {x : Option EventRecord} (hinv : Inv R s) (howes : s.Owes item)
    (hoff : Cursor.offsetOf item.cursor = .ok o) (hstart : start < o)
    (hlow : ∀ q ∈ s.state.store.live s.state.clock item.topic, ∀ y, q.LiesAt item.topic y →
      start < y → o ≤ y)
    (hpage : EventStore.IsPage item.topic start (some o)
      (s.state.store.live s.state.clock item.topic) records)
    (hx : recordWith o records = .ok x) : Answer item s x := by
  obtain ⟨-, owed, howed, hcursor, hevent⟩ := howes
  obtain ⟨n, hn, hat⟩ := hinv.store.numbered _ owed howed
  have hno : n = o := (hat.offsetOf (by rw [hcursor]; exact hoff)).symm
  subst hno
  cases records with
  | nil =>
    simp only [recordWith, Except.ok.injEq] at hx
    subst hx
    intro q hq hqc
    obtain ⟨y, -, hy⟩ := hinv.store.wf.liesAt (EventStore.mem_events_of_mem_live hq)
    have hyn : y = n := by
      have henc := hy.cursor
      rw [hqc, ← hcursor] at henc
      have := Cursor.encode_inj henc hat.cursor
      omega
    rcases hpage.covers q hq y hy ⟨by omega, fun t ht => by cases ht; omega⟩ with h | h
    · cases h
    · exact h.1 rfl
  | cons record rest =>
    have hlive := hpage.sublist.mem (List.mem_cons_self (a := record) (l := rest))
    obtain ⟨y, hlt, hy⟩ := hinv.store.wf.liesAt (EventStore.mem_events_of_mem_live hlive)
    have hin := hpage.inRange record (by simp) y hy
    have hyn : y = n := by
      have := hin.2 n rfl
      have := hlow record hlive y hy hin.1
      omega
    subst hyn
    have hlogged := hinv.store.logged _ record (EventStore.mem_events_of_mem_live hlive)
    obtain rfl := hinv.store.unique _ record hlogged owed howed y hy hat
    have hdecode : Cursor.offsetOf record.cursor = .ok y := by rw [hcursor]; exact hoff
    simp only [recordWith, hdecode, Except.map, if_true, Except.ok.injEq] at hx
    subst hx
    obtain ⟨log, hlog, hmem, -⟩ := EventStore.mem_live.mp hlive
    exact ⟨y, hat, hat.split hdecode, hevent, (hinv.store.wf _ log hlog).canonical record hmem, hn,
      log.topic, log, hlog, rfl⟩

/-- Every live event of the item's topic lies at its offset or after it. -/
private def Aged (item : RetryItem) (o : Nat) (s : Snapshot cfg fuel) : Prop :=
  ∀ q ∈ s.state.store.live s.state.clock item.topic, ∀ y, q.LiesAt item.topic y → o ≤ y

/-- The reads of `recordAt`: from the cursor before the event, or from the first event on. -/
private theorem read_answer {item : RetryItem} {o : Nat} {from_ : Option String}
    (hinv : Inv R s) (howes : s.Owes item) (hoff : Cursor.offsetOf item.cursor = .ok o)
    (hfrom : cursorAt item.topic ((o : Int) - 1) = .ok from_ ∨ (from_ = none ∧ Aged item o s)) :
    (∀ records next, s.state.store.read s.state.clock item.topic from_ (some item.cursor) 1 =
      .ok (records, next) → ∀ x, recordWith o records = .ok x → Answer item s x) ∧
    (∀ e, s.state.store.read s.state.clock item.topic from_ (some item.cursor) 1 = .error e →
      from_ ≠ none ∧ e.code? = some .cursorExpired ∧ Aged item o s) := by
  obtain ⟨-, owed, howed, hcursor, -⟩ := id howes
  obtain ⟨n, hn, hat⟩ := hinv.store.numbered _ owed howed
  have hno : o = n := hat.offsetOf (by rw [hcursor]; exact hoff)
  subst hno
  have henc := hat.cursor
  rw [hcursor] at henc
  have hne : item.topic ≠ "" := (Cursor.eq_of_offsetOf_encode henc hoff).2
  obtain ⟨log, hlog⟩ : ∃ log, s.state.store.logs.get? item.topic = some log := by
    cases hlog : s.state.store.logs.get? item.topic with
    | none => simp [EventStore.count, hlog] at hn
    | some log => exact ⟨log, rfl⟩
  -- the cursor before the event, if the read starts there
  have hcases : ∀ c, from_ = some c → ∃ m : Nat, Cursor.encode item.topic m = .ok c ∧ m + 1 = o := by
    intro c hc
    rcases hfrom with h | ⟨rfl, -⟩
    · rcases cursorAt_ok h with rfl | ⟨c', rfl, henc'⟩
      · cases hc
      · cases hc
        have := Cursor.encode_nonneg henc'
        refine ⟨o - 1, ?_, by omega⟩
        rw [show ((o - 1 : Nat) : Int) = (o : Int) - 1 by omega]
        exact henc'
    · cases hc
  refine ⟨?_, ?_⟩
  · intro records next hread x hx
    have hlatest : from_ ≠ some Cursor.latest := by
      intro h
      obtain ⟨m, hm, -⟩ := hcases _ h
      exact Cursor.encode_ne_sentinel hm (by decide) rfl
    obtain ⟨start, toOffset, hs, he, hpage⟩ := EventStore.read_ok hinv.store.wf hlatest hread
    simp only [EventStore.endOffset] at he
    rw [if_neg (Cursor.encode_ne_sentinel henc (by decide)), Cursor.offsetFor_encode hne henc] at he
    simp only [Except.map, Int.toNat_natCast, Except.ok.injEq] at he
    subst he
    rcases EventStore.startOffset_ok hs with ⟨rfl, rfl⟩ | ⟨h, -⟩ | ⟨c, m, hc, hm, rfl⟩
    · refine answer_page hinv howes hoff (by omega) ?_ hpage hx
      intro q hq y hy _
      rcases hfrom with h | ⟨-, haged⟩
      · simp only [cursorAt] at h
        split at h
        · rename_i hge
          cases hp : Cursor.encode item.topic ((o : Int) - 1) with
          | error e => simp [hp, Except.map] at h
          | ok c => simp [hp, Except.map] at h
        · omega
      · exact haged q hq y hy
    · obtain ⟨m, hm, -⟩ := hcases _ h
      exact absurd rfl (Cursor.encode_ne_sentinel hm (by decide))
    · obtain ⟨m', hm', hsucc⟩ := hcases c hc
      rw [Cursor.offsetFor_encode hne hm'] at hm
      simp only [Int.toNat_natCast, Except.ok.injEq] at hm
      exact answer_page hinv howes hoff (by omega) (fun q _ y _ hlt => by omega) hpage hx
  · intro e he
    obtain ⟨hcode, c, m, rfl, hm, hlow⟩ := EventStore.read_error hinv.store.wf hne hlog
      (fun c hc => (hcases c hc).imp fun _ => And.left)
      (fun c hc => ⟨o, by cases hc; exact henc⟩) he
    obtain ⟨m', hm', hsucc⟩ := hcases c rfl
    have := Cursor.encode_inj hm hm'
    refine ⟨by simp, hcode, ?_⟩
    intro q hq y hy
    have := hlow q hq y hy
    omega

private theorem Aged.idles {item : RetryItem} {o : Nat} (hr : Idles R i s s') (h : Aged item o s) :
    Aged item o s' := by
  intro q hq
  rw [hr.logs] at hq
  exact h q (EventStore.mem_live_of_le hr.clock hq)

/-- Looking the event of an item up. -/
theorem recordAt_safe (hj : R.exclusive j = true) {item : RetryItem} (hst : Stable R j i A)
    (hA : A s) (howes : ∀ s, A s → s.Owes item) :
    Triple R j i (recordAt item.topic item.cursor) (fun r s => A s ∧ Answer item s r)
      (fun _ => True) s := by
  unfold recordAt
  refine .orRaise_bind ?_ (fun _ _ => trivial)
  intro o hoff
  refine .orRaise_bind ?_ (fun _ _ => trivial)
  intro from_ hfrom
  have hfound : ∀ {s : Snapshot cfg fuel} (records : List EventRecord), A s →
      (∀ x, recordWith o records = .ok x → Answer item s x) →
      Triple R j i (orRaise (recordWith o records)) (fun r s => A s ∧ Answer item s r)
        (fun _ => True) s :=
    fun records hA h => .orRaise (fun x hx => ⟨hA, h x hx⟩) (fun _ _ => trivial)
  refine .bind (P := fun r s => A s ∧
    (∀ records next, r = .ok (records, next) → ∀ x, recordWith o records = .ok x →
      Answer item s x) ∧
    (∀ e, r = .error e → e.code? = some .cursorExpired ∧ Aged item o s)) ?_ ?_
  · refine .read rfl rfl hst hA ?_
    intro s c r hinv hA₀ hex hA
    simp only [World.exec, Option.some.injEq, Prod.mk.injEq, and_true] at hex
    obtain ⟨hok, herr⟩ := read_answer hinv (howes s hA₀) hoff (.inl hfrom)
    exact ⟨hA, fun records next hr x hx => (hok records next (hex.trans hr) x hx).next,
      fun e hr => (herr e (hex.trans hr)).2⟩
  · rintro ((err | m | m | m | m) | ⟨records, next⟩) s ⟨hA, hok, herr⟩
    · obtain ⟨hcode, haged⟩ := herr _ rfl
      simp only
      split
      · rename_i hne
        simp only [PyError.code?, Option.some.injEq] at hcode
        exact absurd hcode hne
      -- the cursor before the event aged out: the event is the oldest live one, or gone
      refine .bind (P := fun r s => A s ∧
        (∀ records next, r = .ok (records, next) → ∀ x, recordWith o records = .ok x →
          Answer item s x) ∧ ∀ e, r ≠ .error e) ?_ ?_
      · refine .read (A := fun s => A s ∧ Aged item o s) rfl rfl
          (hst.and (.of_idles hj fun _ _ hr h => h.idles hr)) ⟨hA, haged⟩ ?_
        intro s c r hinv hA₀ hex hA
        simp only [World.exec, Option.some.injEq, Prod.mk.injEq, and_true] at hex
        obtain ⟨hok, herr⟩ := read_answer hinv (howes s hA₀.1) hoff (.inr ⟨rfl, hA₀.2⟩)
        exact ⟨hA.1, fun records next hr x hx => (hok records next (hex.trans hr) x hx).next,
          fun e hr => (herr e (hex.trans hr)).1 rfl⟩
      · rintro (e | ⟨records, next⟩) s ⟨hA, hok, herr⟩
        · exact absurd rfl (herr e)
        · exact hfound records hA (hok records next rfl)
    · cases ((herr _ rfl).1)
    · cases ((herr _ rfl).1)
    · cases ((herr _ rfl).1)
    · cases ((herr _ rfl).1)
    · exact hfound records hA (hok records next rfl)

/-! ## One retry -/

/-- The task has the subscription and the event of an item in its hands. -/
structure Retrying (items : List RetryItem) (item : RetryItem) (h : Handle) (record : EventRecord)
    (o : Nat) (s : Snapshot cfg fuel) : Prop where
  pending : Pending items s
  found : Found item record o s
  refers : Refers h s
  holds : h.sub.subscriptionId = item.subscriptionId

theorem Retrying.grows {items : List RetryItem} {item : RetryItem} {h : Handle}
    {record : EventRecord} {o : Nat} (hg : Grows R s s') (hq : s'.state.queue = s.state.queue)
    (hr : Retrying items item h record o s) : Retrying items item h record o s' :=
  ⟨hr.pending.grows hg hq, hr.found.grows hg, hr.refers.grows hg, hr.holds⟩

/-- The outcome of an item is on record. -/
def Done (items : List RetryItem) (item : RetryItem) (s : Snapshot cfg fuel) : Prop :=
  Pending items s ∧ ∃ a ∈ s.state.subs.attempts, a.subscriptionId = item.subscriptionId ∧
    a.eventId = item.eventId ∧ (a.status = .delivered ∨ a.status = .deadLetter)

theorem Done.grows {items : List RetryItem} {item : RetryItem} (hg : Grows R s s')
    (hq : s'.state.queue = s.state.queue) (h : Done items item s) : Done items item s' := by
  obtain ⟨hp, a, ha, heq⟩ := h
  exact ⟨hp.grows hg hq, a, hg.attempts a ha, heq⟩

private theorem Retrying.done {items : List RetryItem} {item : RetryItem} {h : Handle}
    {record : EventRecord} {o : Nat} {status : AttemptStatus}
    (hr : Retrying items item h record o s) (hrec : Recorded h.sub.subscriptionId record status s)
    (hstatus : status = .delivered ∨ status = .deadLetter) : Done items item s := by
  obtain ⟨a, ha, hsub, hevent, -, hst⟩ := hrec
  exact ⟨hr.pending, a, ha, hsub.trans hr.holds, hevent.trans hr.found.eventId, hst ▸ hstatus⟩

section Retry

variable {items : List RetryItem} {item : RetryItem} {h : Handle} {record : EventRecord} {o : Nat}

/-- No position goes back if the attempt ends the delivery. -/
private def Forward (R : Regime) (cfg : PublisherConfig) (item : RetryItem) (o n : Nat)
    (result : DeliveryResult) (s : Snapshot cfg fuel) : Prop :=
  R.monotone = true → result.terminal cfg n = true →
    s.state.subs.position item.subscriptionId item.topic ≤ o

private theorem stable_forward (hj : R.exclusive j = true) {n : Nat} {result : DeliveryResult} :
    Stable R j i fun s : Snapshot cfg fuel =>
      Retrying items item h record o s ∧ Forward R cfg item o n result s := by
  rintro s s' hr ⟨h, hf⟩
  have hidle : Idles R i s s' := by
    simp only [contract, hj, if_true] at hr
    exact hr
  refine ⟨h.grows hidle.toGrows hidle.queue, ?_⟩
  unfold Forward
  rw [position_pin hj hr]
  exact hf

private theorem firm_retrying (hj : R.exclusive j = true) :
    Firm R j i fun s : Snapshot cfg fuel => Retrying items item h record o s :=
  .of_grows hj fun _ _ hg hq h => h.grows hg hq

private theorem firm_done (hj : R.exclusive j = true) :
    Firm R j i fun s : Snapshot cfg fuel => Done items item s :=
  .of_grows hj fun _ _ hg hq h => h.grows hg hq

/-- A repeated attempt. -/
private theorem retrySend_safe (hretry : j.isRetry = true) (hno : R.ordered = false) {n : Nat}
    (hn : n ≠ 1) (hr : Retrying items item h record o s)
    (hadm : R.gated = true → Snapshot.Admitted s.trace i item.subscriptionId) :
    Triple R j i (attemptSend cfg h record n)
      (fun result s => Retrying items item h record o s ∧ Forward R cfg item o n result s)
      (fun _ => True) s := by
  have hj := R.exclusive_of_isRetry hretry
  refine attemptSend_safe (A := fun s => Retrying items item h record o s ∧
    (R.gated = true → Snapshot.Admitted s.trace i item.subscriptionId)) ?_ ⟨hr, hadm⟩ ?_
    hr.found.canonical (fun _ _ _ => trivial) ?_
  · refine .of_idles hj fun s s' hr h => ⟨h.1.grows hr.toGrows hr.queue, fun hg => ?_⟩
    obtain ⟨e, he, hadmits⟩ := h.2 hg
    exact ⟨e, hr.takeUp.trans he, hadmits⟩
  · intro s hr
    rw [hr.1.found.lies.topic]
    exact hr.1.found.declared
  · rintro s c frame hinv ⟨hr, hadm⟩ hok
    obtain ⟨row, hrow, -⟩ := hr.refers
    refine ⟨hinv.send hrow (fun ho => (by cases (hno.symm.trans ho))) ?_ ?_,
      guar_of_grows hj .send, ?_, fun _ _ => trivial⟩
    · rw [hr.holds]
      exact hadm
    · exact fun _ h => absurd h hn
    · intro result hresult
      refine ⟨hr.grows (R := R) .send rfl, fun hm hterminal => ?_⟩
      have := hok.2.1 hm hretry result hresult hterminal o (by rw [hr.found.lies.topic]; exact hr.found.lies)
      rw [hr.holds, hr.found.lies.topic] at this
      exact this

/-- A retry that was delivered. -/
private theorem retryDelivered_safe (hj : R.exclusive j = true) (hno : R.ordered = false)
    (hna : R.accounted = false) {n : Nat} {result : DeliveryResult}
    (hr : Retrying items item h record o s) :
    Triple R j i (onDelivered h record n result) (fun _ s => Done items item s) (fun _ => True) s := by
  unfold onDelivered
  refine .bind (recordAttempt_safe (firm_retrying hj).stable hr) ?_
  rintro _ s ⟨hr, hrec⟩
  have htopic := hr.found.lies.topic
  refine (advance_safe (A := fun s => Retrying items item h record o s ∧ Done items item s)
    (Q := fun s => Done items item s) ?_ ⟨hr, hr.done hrec (.inl rfl)⟩ hr.refers ?_
    (firm_done hj).stable (fun _ _ hr _ => position_pin hj hr _ _) (fun _ _ h _ _ => h.2) ?_
    (fun _ _ _ _ => trivial) (fun _ _ _ => trivial)).mono (fun _ _ h => h.1) (fun _ h => h)
  · exact .of_grows hj fun _ _ hg hq h => ⟨h.1.grows hg hq, h.2.grows hg hq⟩
  · intro s h _
    rw [htopic]
    exact ⟨o, h.1.found.decodes, h.1.found.below⟩
  · rintro s n hinv ⟨hr, hd⟩ hn hgt
    obtain rfl := hr.found.lies.offsetOf hn
    obtain ⟨row, hrow, -⟩ := hr.refers
    have hmono : R.monotone = true →
        s.state.subs.position h.sub.subscriptionId record.topic ≤ (n : Int) :=
      fun _ => Int.le_of_lt hgt
    refine ⟨hinv.setHighWater hrow hmono ?_ (fun h => (by cases (hno.symm.trans h)))
      (fun h => (by cases (hna.symm.trans h))), guar_of_grows hj (.setHighWater hmono),
      hd.grows (R := R) (.setHighWater hmono) rfl⟩
    intro _
    rw [htopic]
    exact Int.ofNat_lt.mpr hr.found.below

/-- A retry that was given up: the position moves onto the event wherever it was. -/
private theorem retryTerminal_safe (hj : R.exclusive j = true) (hno : R.ordered = false)
    (hna : R.accounted = false) {n : Nat} {result : DeliveryResult}
    (hterminal : result.terminal cfg n = true) (hr : Retrying items item h record o s)
    (hf : Forward R cfg item o n result s) :
    Triple R j i (onTerminal h record n result) (fun _ s => Done items item s) (fun _ => True) s := by
  unfold onTerminal
  refine .bind (recordAttempt_safe (stable_forward hj) ⟨hr, hf⟩) ?_
  rintro _ s ⟨⟨hr, hf⟩, hrec⟩
  have htopic := hr.found.lies.topic
  refine .orRaise_bind ?_ (fun _ _ => trivial)
  intro m hm
  obtain rfl := hr.found.lies.offsetOf hm
  refine .call ((stable_forward hj).and (firm_done hj).stable) ⟨⟨hr, hf⟩, hr.done hrec (.inr rfl)⟩ ?_
  rintro s c r w' hinv ⟨⟨hr, hf⟩, hd⟩ _ hex
  simp only [World.exec, Option.some.injEq, Prod.mk.injEq] at hex
  obtain ⟨-, rfl⟩ := hex
  obtain ⟨row, hrow, -⟩ := hr.refers
  have hmono : R.monotone = true →
      s.state.subs.position h.sub.subscriptionId record.topic ≤ (m : Int) := by
    intro hmono
    rw [hr.holds, htopic]
    exact hf hmono hterminal
  refine ⟨hinv.setHighWater hrow hmono ?_ (fun h => (by cases (hno.symm.trans h)))
    (fun h => (by cases (hna.symm.trans h))), guar_of_grows hj (.setHighWater hmono),
    hd.grows (R := R) (.setHighWater hmono) rfl⟩
  intro _
  rw [htopic]
  exact Int.ofNat_lt.mpr hr.found.below

/-- Removing an item whose outcome is on record. -/
private theorem completeDone_safe (hj : R.exclusive j = true) {E : Snapshot cfg fuel → Prop}
    (hmem : item ∈ items) (hd : Done items item s) :
    Triple R j i (perform (.complete item.retryId)) (fun _ s => Pending items s) E s :=
  complete_safe (firm_done hj).stable hd hmem (fun _ h => h.1) fun _ h => .inl h.2

end Retry

/-- The first look of a retry: the subscription of the item. -/
private theorem retryGet_safe (hretry : j.isRetry = true) {items : List RetryItem}
    {item : RetryItem} {E : Snapshot cfg fuel → Prop} (hp : Pending items s) :
    Triple R j i (perform (.get item.subscriptionId)) (fun r s => Pending items s ∧
      r = s.state.subs.get item.subscriptionId ∧ ∀ h, r = some h → Refers h s ∧
        h.sub.subscriptionId = item.subscriptionId ∧ (h.sub.status = .active → R.gated = true →
          Snapshot.Admitted s.trace i item.subscriptionId)) E s := by
  have hj := R.exclusive_of_isRetry hretry
  refine .call (.of_idles hj fun _ _ hr h => h.grows hr.toGrows hr.queue) hp ?_
  intro s c r w' hinv hp hadm hex
  obtain rfl := World.exec_reads rfl hex
  simp only [World.exec, Option.some.injEq, Prod.mk.injEq, and_true] at hex
  have hcalm := (World.Quiet.refl s.state).calm (R := R)
  refine ⟨hinv.calm rfl hcalm, guar_of_keeps (.calm rfl hcalm fun _ => .of_rows_eq rfl (Int.le_refl _)),
    hp.grows (R := R) (.calm rfl hcalm) rfl, hex.symm, ?_⟩
  intro h hr
  have hh := refers_of_get hinv (hex.trans hr)
  rw [hr] at hex
  simp only [SubscriptionStore.get, Option.map_eq_some_iff] at hex
  obtain ⟨row, hrow, rfl⟩ := hex
  refine ⟨hh, hinv.rows.key _ row hrow, fun hactive hg => ?_⟩
  obtain ⟨hlease, hauth⟩ := (hadm rfl row hrow).1 hg hretry hactive
  refine ⟨⟨i, .get item.subscriptionId, r, s.state⟩, by simp [Entry.takesUp], ?_⟩
  exact ⟨rfl, row, hrow, hactive, hlease, hauth⟩

/-- One queued delivery. -/
theorem retryDelivery_safe (hretry : j.isRetry = true) (hno : R.ordered = false)
    (hna : R.accounted = false) {items : List RetryItem} {item : RetryItem} (hmem : item ∈ items)
    (hp : Pending items s) :
    Triple R j i (retryDelivery cfg item) (fun _ s => Pending items s) (fun _ => True) s := by
  have hj := R.exclusive_of_isRetry hretry
  -- the item of a subscription that is gone or not active is dropped
  have hdrop : ∀ s : Snapshot cfg fuel, Pending items s →
      (∀ row, s.state.subs.rows.get? item.subscriptionId = some row → row.status ≠ .active) →
      Triple R j i (perform (.complete item.retryId)) (fun _ s => Pending items s)
        (fun _ => True) s := by
    intro s hp hrow
    refine complete_safe (A := fun s => Pending items s ∧ ∀ row,
      s.state.subs.rows.get? item.subscriptionId = some row → row.status ≠ .active) ?_ ⟨hp, hrow⟩ hmem
      (fun _ h => h.1) (fun _ h => .inr (.inr h.2))
    refine .of_idles hj fun s s' hr h => ⟨h.1.grows hr.toGrows hr.queue, ?_⟩
    rw [hr.subscriptions]
    exact h.2
  unfold retryDelivery
  refine .bind (retryGet_safe hretry hp) ?_
  rintro (_ | h) s ⟨hp, hget, hh⟩
  · refine hdrop s hp fun row hrow => ?_
    simp [SubscriptionStore.get, hrow] at hget
  obtain ⟨hrefers, hholds, hadm⟩ := hh h rfl
  simp only
  split
  · rename_i hstatus
    refine hdrop s hp fun row hrow => ?_
    simp only [SubscriptionStore.get, hrow, Option.map_some, Option.some.injEq] at hget
    rw [hget] at hstatus
    exact hstatus
  rename_i hactive
  rw [ne_eq, not_not] at hactive
  refine .bind (recordAt_safe hj (A := fun s => Pending items s ∧ Refers h s ∧
    (R.gated = true → Snapshot.Admitted s.trace i item.subscriptionId)) ?_
    ⟨hp, hrefers, hadm hactive⟩ (fun s h => (h.1 item hmem).1)) ?_
  · refine .of_idles hj fun s s' hr h => ⟨h.1.grows hr.toGrows hr.queue,
      h.2.1.grows hr.toGrows, fun hg => ?_⟩
    obtain ⟨e, he, hadmits⟩ := h.2.2 hg
    exact ⟨e, hr.takeUp.trans he, hadmits⟩
  rintro (_ | record) s ⟨⟨hp, hrefers, hadm⟩, hanswer⟩
  · -- the event is out of retention
    refine complete_safe (A := fun s => Pending items s ∧ Answer item s none) ?_ ⟨hp, hanswer⟩ hmem
      (fun _ h => h.1) (fun _ h => .inr (.inl h.2))
    refine .of_idles hj fun s s' hr h => ⟨h.1.grows hr.toGrows hr.queue, fun q hq => ?_⟩
    rw [hr.logs] at hq
    exact h.2 q (EventStore.mem_live_of_le hr.clock hq)
  obtain ⟨o, hfound⟩ := hanswer
  have hattempt := (hp item hmem).1.1
  refine .bind (retrySend_safe hretry hno (by omega) ⟨hp, hfound, hrefers, hholds⟩ hadm) ?_
  rintro result s ⟨hr, hf⟩
  split
  · exact .bind (retryDelivered_safe hj hno hna hr) fun _ s hd => completeDone_safe hj hmem hd
  rename_i hack
  split
  · rename_i hlast
    have hterminal : result.terminal cfg (item.attempt + 1) = true := by
      simp only [DeliveryResult.terminal, Bool.and_eq_true, Bool.not_eq_true']
      exact ⟨by simpa using hack, by simpa using hlast⟩
    exact .bind (retryTerminal_safe hj hno hna hterminal hr hf)
      fun _ s hd => completeDone_safe hj hmem hd
  · have hst : Stable R j i fun s : Snapshot cfg fuel => Retrying items item h record o s :=
      (firm_retrying hj).stable
    refine .bind (recordAttempt_safe hst hr) ?_
    rintro _ s ⟨hr, _⟩
    refine .bind (.look rfl rfl hst hr) ?_
    intro now s hr
    refine .orRaise_bind (fun delay _ => ?_) (fun _ _ => trivial)
    exact reschedule_safe hst hr (by omega) fun _ h => h.pending

theorem retryAll_safe (hretry : j.isRetry = true) (hno : R.ordered = false)
    (hna : R.accounted = false) {items : List RetryItem} (rest : List RetryItem) :
    ∀ {s : Snapshot cfg fuel}, (∀ item ∈ rest, item ∈ items) → Pending items s →
      Triple R j i (retryAll cfg rest) (fun _ _ => True) (fun _ => True) s := by
  induction rest with
  | nil => exact fun _ _ => .pure trivial
  | cons item rest ih =>
    intro s hsub hp
    refine .bind (retryDelivery_safe hretry hno hna (hsub item (.head _)) hp) ?_
    exact fun _ s hp => ih (fun q hq => hsub q (.tail _ hq)) hp

/-! ## A pass of the retry worker -/

/-- Leasing items forward replaces items by their like. -/
private theorem get?_lease {d : Dict String RetryItem} (items : List RetryItem)
    (h : ∀ item ∈ items, ∃ q, d.get? item.retryId = some q ∧ item.Alike q ∧
      item.attempt = q.attempt) (id : String) :
    (∀ q, d.get? id = some q → ∃ q', (items.foldl (fun d i => d.set i.retryId i) d).get? id =
      some q' ∧ q'.Alike q ∧ q'.attempt = q.attempt) ∧
    (d.get? id = none → (items.foldl (fun d i => d.set i.retryId i) d).get? id = none) := by
  induction items generalizing d with
  | nil => exact ⟨fun q hq => ⟨q, hq, .refl _, rfl⟩, fun hn => hn⟩
  | cons item rest ih =>
    obtain ⟨old, hold, halike, hattempt⟩ := h item (.head _)
    have hset : ∀ k q, d.get? k = some q → ∃ q', (d.set item.retryId item).get? k = some q' ∧
        q'.Alike q ∧ q'.attempt = q.attempt := by
      intro k q hq
      rw [Dict.get?_set]
      split
      · rename_i hk
        rw [hk, hold] at hq
        cases hq
        exact ⟨item, rfl, halike, hattempt⟩
      · exact ⟨q, hq, .refl _, rfl⟩
    have hrest : ∀ q ∈ rest, ∃ p, (d.set item.retryId item).get? q.retryId = some p ∧ q.Alike p ∧
        q.attempt = p.attempt := by
      intro q hq
      obtain ⟨p, hp, ha, hn⟩ := h q (.tail _ hq)
      obtain ⟨p', hp', ha', hn'⟩ := hset _ p hp
      exact ⟨p', hp', ha.trans ha'.symm, hn.trans hn'.symm⟩
    obtain ⟨hsome, hnone⟩ := ih hrest
    refine ⟨fun q hq => ?_, fun hn => hnone ?_⟩
    · obtain ⟨q', hq', ha, hn⟩ := hset id q hq
      obtain ⟨q'', hq'', ha', hn'⟩ := hsome q' hq'
      exact ⟨q'', hq'', ha'.trans ha, hn'.trans hn⟩
    · have hne : id ≠ item.retryId := by
        intro heq
        rw [heq, hold] at hn
        cases hn
      simp [hne, hn]

private theorem mem_sliceTo {α : Type} {x : α} {l : List α} {limit : Int}
    (h : x ∈ RetryQueue.sliceTo l limit) : x ∈ l := by
  simp only [RetryQueue.sliceTo] at h
  split at h <;> exact List.mem_of_mem_take h

/-- Claimed items are queued items. -/
private theorem mem_claimDue (hinv : QueueInv s) {now : Time} {limit lease : Int} {item : RetryItem}
    (h : item ∈ (s.state.queue.claimDue now limit lease).1) :
    ∃ q, s.state.queue.items.get? item.retryId = some q ∧ item.Alike q ∧
      item.attempt = q.attempt := by
  simp only [RetryQueue.claimDue, List.mem_map] at h
  obtain ⟨q, hq, rfl⟩ := h
  have hq := List.mem_of_mem_filter ((List.mem_insertionSort _).mp (mem_sliceTo hq))
  obtain ⟨id, hid⟩ := Dict.mem_values_iff.mp hq
  refine ⟨q, ?_, ⟨rfl, rfl, rfl, rfl, rfl⟩, rfl⟩
  rw [(hinv id q hid).1]
  exact hid

theorem claimDue_safe {now : Time} {limit lease : Int} {E : Snapshot cfg fuel → Prop} :
    Triple R j i (perform (.claimDue now limit lease)) (fun items s => Pending items s) E s := by
  refine .call (A := fun _ => True) (.const True) trivial ?_
  intro s c r w' hinv _ _ hex
  simp only [World.exec, Option.some.injEq, Prod.mk.injEq] at hex
  obtain ⟨rfl, rfl⟩ := hex
  have hlease := get?_lease (s.state.queue.claimDue now limit lease).1
    fun item hmem => mem_claimDue hinv.queue hmem
  have hold : ∀ id q', (s.state.queue.claimDue now limit lease).2.items.get? id = some q' →
      ∃ q, s.state.queue.items.get? id = some q ∧ q'.Alike q ∧ q'.attempt = q.attempt := by
    intro id q' hq'
    cases hq : s.state.queue.items.get? id with
    | none =>
      have hnone : (s.state.queue.claimDue now limit lease).2.items.get? id = none :=
        (hlease id).2 hq
      rw [hnone] at hq'
      cases hq'
    | some q =>
      obtain ⟨q'', hq'', ha⟩ := (hlease id).1 q hq
      have heq : (s.state.queue.claimDue now limit lease).2.items.get? id = some q'' := hq''
      rw [heq] at hq'
      cases hq'
      exact ⟨q, rfl, ha⟩
  have hkept : QueueKept s (s.requeued i (.claimDue now limit lease)
      (s.state.queue.claimDue now limit lease).1 (s.state.queue.claimDue now limit lease).2) [⟨i, .claimDue now limit lease,
        (s.state.queue.claimDue now limit lease).1, s.state⟩] := by
    intro id item hitem
    obtain ⟨q', hq', ha, -⟩ := (hlease id).1 item hitem
    exact .inl ⟨q', hq', ha⟩
  have howes : ∀ item q, s.state.queue.items.get? item.retryId = some q → item.Alike q →
      item.attempt = q.attempt → s.Owes item := by
    intro item q hq ha hn
    obtain ⟨-, hattempt, r, hr, heq⟩ := hinv.queue _ q hq
    exact ⟨by omega, r, by rw [ha.topic]; exact hr, by rw [ha.cursor, ha.eventId]; exact heq⟩
  refine ⟨hinv.requeue rfl hkept ?_, guar_of_keeps (.requeue rfl hkept), ?_⟩
  · intro id item hitem
    obtain ⟨q, hq, ha, hn⟩ := hold id item hitem
    have hid : item.retryId = id := ha.retryId.trans (hinv.queue id q hq).1
    exact ⟨hid, howes item q (by rw [hid]; exact hq) ha hn⟩
  · intro item hmem
    obtain ⟨q, hq, ha, hn⟩ := mem_claimDue hinv.queue hmem
    refine ⟨(howes item q hq ha hn).grows (Keeps.requeue (R := R) rfl hkept).toGrows, ?_⟩
    intro queued hqueued
    obtain ⟨q', hq', ha', -⟩ := hold _ queued hqueued
    rw [hq] at hq'
    cases hq'
    exact ha'.trans ha.symm

theorem runOnce_safe (hretry : j.isRetry = true) (hno : R.ordered = false)
    (hna : R.accounted = false) {now : Time} {limit lease : Int} :
    Triple R j i (runOnce cfg now limit lease) (fun _ _ => True) (fun _ => True) s := by
  unfold runOnce
  refine .bind claimDue_safe ?_
  intro items s hp
  exact .bind (retryAll_safe hretry hno hna items (fun _ h => h) hp) fun _ _ _ => .pure trivial

end A2AEvents
