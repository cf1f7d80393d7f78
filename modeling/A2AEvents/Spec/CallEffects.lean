import A2AEvents.Spec.CallRules

/-!
# The calls that matter

The calls that append events, add subscriptions, move positions, send, take and release
locks and work on the retry queue, each with the condition under which it keeps the
invariant.

## Key results

- `Inv.append`, `Inv.add`, `Inv.setHighWater`, `Inv.send`, `Inv.acquire`, `Inv.release`,
  `Inv.requeue`, `Inv.complete`
-/

namespace A2AEvents

open Async Publisher

variable {cfg : PublisherConfig} {fuel : Nat} {R : Regime} {i : Nat} {s s' : Snapshot cfg fuel}

/-! ## Positions -/

/-- A subscription without positions is before the first event everywhere. -/
theorem SubscriptionStore.position_of_absent {store : SubscriptionStore} {id : String}
    (h : store.positions.get? id = none) (topic : String) : store.position id topic = -1 := by
  simp [position, highWater, h, Dict.getD]

/-! ## Carrying parts of the invariant over -/

theorem StoreInv.congr (h : StoreInv s) (hstore : s'.state.store = s.state.store)
    (htopics : s'.state.topics = s.state.topics)
    (happ : ∀ topic, appended s'.trace topic = appended s.trace topic) : StoreInv s' := by
  obtain ⟨h₁, h₂, h₃, h₄, h₅⟩ := h
  refine ⟨?_, ?_, ?_, ?_, ?_⟩ <;> simp only [hstore, htopics, happ] <;> assumption

theorem QueueInv.grows (h : QueueInv s) (hqueue : s'.state.queue = s.state.queue)
    (htrace : ∃ l, s'.trace = s.trace ++ l) : QueueInv s' := by
  intro id item hitem
  rw [hqueue] at hitem
  obtain ⟨hid, hattempt, r, hr, howes⟩ := h id item hitem
  obtain ⟨l, hl⟩ := htrace
  refine ⟨hid, hattempt, r, ?_, howes⟩
  rw [hl, appended_append]
  exact List.mem_append_left _ hr

theorem RemovalInv.concat {w : World} {e : Entry cfg fuel} (h : RemovalInv s)
    (he : ∀ retryId, e.op = .complete retryId → ∀ item,
      e.before.queue.items.get? retryId = some item → e.before.Released item) :
    RemovalInv (⟨w, s.trace ++ [e]⟩ : Snapshot cfg fuel) := by
  intro e' he' retryId hop item hitem
  rcases List.mem_append.mp he' with he' | he'
  · exact h e' he' retryId hop item hitem
  · obtain rfl := List.mem_singleton.mp he'
    exact he retryId hop item hitem

theorem Fresh.concat {w : World} {e : Entry cfg fuel} (h : Fresh s)
    (he : ∀ sub record frame, e.op = .send sub record 1 frame → ∀ o,
      record.LiesAt record.topic o → e.before.subs.position sub.subscriptionId record.topic < o) :
    Fresh (⟨w, s.trace ++ [e]⟩ : Snapshot cfg fuel) := by
  intro e' he' sub record frame hop o ho
  rcases List.mem_append.mp he' with he' | he'
  · exact h e' he' sub record frame hop o ho
  · obtain rfl := List.mem_singleton.mp he'
    exact he sub record frame hop o ho

/-- What is accounted for up to a bound stays so: events appended later lie beyond it. -/
theorem Snapshot.AccountedUpTo.grows {id topic : String} {bound : Int} {row : Subscription}
    (h : s.AccountedUpTo id topic bound) (hg : Grows R s s')
    (hrow : s.state.subs.rows.get? id = some row) : s'.AccountedUpTo id topic bound := by
  intro p hp hid
  have hp' : p ∈ added s.trace := by
    rcases hg.added p hp with hp | hnone
    · exact hp
    · rw [hid, hrow] at hnone; cases hnone
  obtain ⟨hreach, hacc⟩ := h p hp' hid
  have hcount := hg.store.count topic
  refine ⟨hreach.imp_left fun hlt => by omega, ?_⟩
  intro r hr o ho hlt hle
  rcases hg.appended topic r hr with hr | ⟨o', ho', hat⟩
  · obtain ⟨l, hl, -⟩ := hg.trace
    exact (hacc r hr o ho hlt hle).mono ⟨l, hl⟩ hg.store hg.attempts
  · have := ho.unique hat
    omega

/-- Accounts after a step: a position moves only over what is accounted for. -/
theorem Accounts.grows (h : Accounts s) (hg : Grows R s s')
    (hpos : ∀ id row topic, s.state.subs.rows.get? id = some row →
      s'.state.subs.position id topic = s.state.subs.position id topic ∨
        s.AccountedUpTo id topic (s'.state.subs.position id topic))
    (hnew : ∀ p ∈ added s'.trace, s.state.subs.rows.get? p.1.subscriptionId = none → ∀ topic,
      s'.state.subs.position p.1.subscriptionId topic ≤ p.2.getD topic (-1)) : Accounts s' := by
  intro id topic p hp hid
  cases hrow : s.state.subs.rows.get? id with
  | some row =>
    have hbefore : s.AccountedUpTo id topic (s'.state.subs.position id topic) := by
      rcases hpos id row topic hrow with heq | hacc
      · rw [heq]; exact h id topic
      · exact hacc
    exact hbefore.grows hg hrow p hp hid
  | none =>
    have hle := hnew p hp (by rw [hid]; exact hrow) topic
    rw [hid] at hle
    refine ⟨.inr hle, ?_⟩
    intro r _ o _ hlt hle'
    omega

theorem Bounded.grows (h : Bounded s) (hg : Grows R s s')
    (hpos : ∀ id topic, s'.state.subs.position id topic = s.state.subs.position id topic ∨
      s'.state.subs.position id topic < s'.state.store.count topic)
    (hrows : ∀ id row, s'.state.subs.rows.get? id = some row →
      s.state.subs.rows.get? id = some row ∨ row.cursors = ∅) : Bounded s' := by
  refine ⟨hg.backend.trans h.backend, ?_, ?_⟩
  · intro id topic
    rcases hpos id topic with heq | hlt
    · have := h.position id topic
      have := hg.store.count topic
      rw [heq]
      omega
    · exact hlt
  · intro id row topic cursor hrow hc
    rcases hrows id row hrow with hrow | hempty
    · obtain ⟨o, ho, hlt⟩ := h.acked id row topic cursor hrow hc
      exact ⟨o, ho, Nat.lt_of_lt_of_le hlt (hg.store.count topic)⟩
    · rw [hempty] at hc
      cases hc

/-! ## Appending -/

section Append

variable {topic eventType source : String} {data : List (String × Json)} {subject : Option String}
  {c : Choice} {r : (Op.append topic eventType source data subject).Res} {w' : World}

/-- An append shows in the history of its own topic if it succeeded. -/
private theorem mem_appended_append {name : String} {q : EventRecord} :
    q ∈ appended (s.next i (.append topic eventType source data subject) r w').trace name ↔
      q ∈ appended s.trace name ∨ (name = topic ∧ r = .ok q) := by
  simp only [Snapshot.next_trace, appended_concat, List.mem_append, Option.mem_toList]
  refine or_congr_right ?_
  cases r with
  | error e => simp [Entry.appended?]
  | ok record =>
    by_cases h : topic = name
    · simp [Entry.appended?, h]
    · simp [Entry.appended?, h, Ne.symm h]

theorem Keeps.append (hex : World.exec i (.append topic eventType source data subject) c s.state =
    some (r, w')) : Keeps R i s (s.next i (.append topic eventType source data subject) r w') := by
  simp only [World.exec, Option.some.injEq, Prod.mk.injEq] at hex
  obtain ⟨hr, rfl⟩ := hex
  refine ⟨⟨⟨_, rfl, fun _ item h => .inl ⟨item, h, .refl _⟩⟩, ?_, ?_, Int.le_refl _, ?_,
    fun _ row h => ⟨row, h, .refl _⟩, fun _ h => h, rfl, fun _ _ _ => Int.le_refl _⟩, ?_, ?_,
    fun _ => .of_rows_eq rfl (Int.le_refl _)⟩
  · intro name q hq
    rcases mem_appended_append.mp hq with hq | ⟨rfl, hq⟩
    · exact .inl hq
    · exact .inr ⟨_, Nat.le_refl _, (EventStore.append_ok (hr.trans hq)).1⟩
  · intro p hp
    simp only [Snapshot.next_trace, added_concat, Entry.added?, Option.toList_none,
      List.append_nil] at hp
    exact .inl hp
  · exact EventStore.grows_append _ _ _ _ _ _ _ _
  · intro id k _ hlock
    exact ⟨hlock, fun _ => rfl, fun topic => by simp [Entry.sent?]⟩
  · intro k hk
    simp [Ne.symm hk]

theorem Interferes.append
    (hex : World.exec i (.append topic eventType source data subject) c s.state = some (r, w')) :
    Interferes R i s (s.next i (.append topic eventType source data subject) r w') := by
  have hk : Keeps R i s _ := .append hex
  simp only [World.exec, Option.some.injEq, Prod.mk.injEq] at hex
  obtain ⟨-, rfl⟩ := hex
  refine ⟨hk.toGrows, ?_, ?_, hk.lapsed⟩
  · intro id hlock
    exact ⟨hlock, fun _ => rfl, fun topic => by simp [Entry.sent?]⟩
  · simp [Entry.takesUp]

/-- Appending keeps the invariant: the new event lies beyond every position. -/
theorem Inv.append (h : Inv R s)
    (hex : World.exec i (.append topic eventType source data subject) c s.state = some (r, w')) :
    Inv R (s.next i (.append topic eventType source data subject) r w') := by
  have hk : Keeps R i s _ := .append hex
  have hg := hk.toGrows
  simp only [World.exec, Option.some.injEq, Prod.mk.injEq] at hex
  obtain ⟨hr, rfl⟩ := hex
  have hsend : ∀ id name,
      @Entry.sent? cfg fuel id name
        ⟨i, .append topic eventType source data subject, r, s.state⟩ = none := fun _ _ => rfl
  refine { store := ?store, rows := ?rows, queue := ?queue, removals := ?removals, bounded := ?bounded,
           ordered := ?ordered, accounts := ?accounts, gated := ?gated, fresh := ?fresh }
  case store =>
    obtain ⟨h₁, h₂, h₃, h₄, h₅⟩ := h.store
    refine ⟨h₁.append _ _ _ _ _ _ _, ?_, ?_, ?_, ?_⟩
    · intro name t hget
      obtain ⟨log, hlog, htopic⟩ := h₂ name t hget
      obtain ⟨log', hlog', htopic', -⟩ := hg.store name log hlog
      exact ⟨log', hlog', htopic'.trans htopic⟩
    · intro name q hq
      rcases mem_appended_append.mp hq with hq | ⟨rfl, hq⟩
      · obtain ⟨o, ho, hat⟩ := h₃ name q hq
        exact ⟨o, Nat.lt_of_lt_of_le ho (hg.store.count name), hat⟩
      · obtain ⟨hat, hlt⟩ := EventStore.append_ok (hr.trans hq)
        exact ⟨_, hlt, hat⟩
    · -- two events with one number: the older ones lie below the count
      intro name q hq q' hq' o ho ho'
      have hold : ∀ {p}, p ∈ appended s.trace name → p.LiesAt name o →
          o < s.state.store.count name := by
        intro p hp hpo
        obtain ⟨o', hlt, hat⟩ := h₃ name p hp
        rw [hpo.unique hat]
        exact hlt
      have hnew : ∀ {p}, r = .ok p → name = topic → p.LiesAt name o →
          o = s.state.store.count name := by
        intro p hp hname hpo
        subst hname
        exact hpo.unique (EventStore.append_ok (hr.trans hp)).1
      rcases mem_appended_append.mp hq with hm | ⟨hname, hm⟩ <;>
        rcases mem_appended_append.mp hq' with hm' | ⟨hname', hm'⟩
      · exact h₄ name q hm q' hm' o ho ho'
      · have := hold hm ho; have := hnew hm' hname' ho'; omega
      · have := hold hm' ho'; have := hnew hm hname ho; omega
      · rw [hm] at hm'; simpa using hm'
    · intro name q hq
      rw [mem_appended_append]
      rcases EventStore.mem_events_append hq with hq | ⟨rfl, hq⟩
      · exact .inl (h₅ name q hq)
      · exact .inr ⟨rfl, hr.symm.trans hq⟩
  case rows =>
    obtain ⟨h₁, h₂, h₃⟩ := h.rows
    refine ⟨h₁, ?_, ?_⟩
    · intro id hnone
      simp only [Snapshot.next_trace, sends_concat, hsend, Option.toList_none, List.append_nil]
      exact h₂ id hnone
    · intro p hp
      simp only [Snapshot.next_trace, added_concat, Entry.added?, Option.toList_none,
        List.append_nil] at hp
      exact h₃ p hp
  case queue =>
    exact h.queue.grows rfl ⟨_, rfl⟩
  case removals =>
    exact h.removals.concat (fun _ hop => (by cases hop))
  case bounded =>
    intro hb
    exact (h.bounded hb).grows hg (fun _ _ => .inl rfl) (fun _ _ => .inl)
  case ordered =>
    intro ho
    obtain ⟨h₁, h₂⟩ := h.ordered ho
    refine ⟨?_, ?_⟩
    · intro id name
      simp only [Snapshot.next_trace, sends_concat, hsend, Option.toList_none, List.append_nil]
      exact h₁ id name
    · intro id hlock name p hp
      simp only [Snapshot.next_trace, sends_concat, hsend, Option.toList_none,
        List.append_nil] at hp
      exact h₂ id hlock name p hp
  case accounts =>
    intro ha
    refine (h.accounts ha).grows hg (fun _ _ _ _ => .inl rfl) ?_
    intro p hp hnone
    simp only [Snapshot.next_trace, added_concat, Entry.added?, Option.toList_none,
      List.append_nil] at hp
    obtain ⟨row, hrow, -⟩ := h.rows.added p hp
    rw [hrow] at hnone
    cases hnone
  case gated =>
    intro hgate
    exact gated_concat (w := s.state) (h.gated hgate) (fun _ _ _ _ hop => (by cases hop))
  case fresh =>
    intro hm
    exact (h.fresh hm).concat (fun _ _ _ hop => (by cases hop))

end Append

/-! ## Silent calls -/

section SilentTrace

variable {o : Op} {r : o.Res} {w' : World} (ho : o.silent = true)

include ho

theorem appended_next (topic : String) :
    appended (s.next i o r w').trace topic = appended s.trace topic := by
  simp [Op.appended?_silent ho]

theorem added_next : added (s.next i o r w').trace = added s.trace := by
  simp [Op.added?_silent ho]

theorem sends_next (id topic : String) :
    sends (s.next i o r w').trace id topic = sends s.trace id topic := by
  simp [Op.sent?_silent ho]

theorem RemovalInv.silent (h : RemovalInv s) : RemovalInv (s.next i o r w') := by
  refine h.concat ?_
  intro retryId hop
  simp only at hop
  subst hop
  simp [Op.silent] at ho

theorem Gated.silent (h : Gated s) : Gated (s.next i o r w') := by
  refine gated_concat (w := s.state) h ?_
  intro sub record attempt frame hop
  simp only at hop
  subst hop
  simp [Op.silent] at ho

theorem Fresh.silent (h : Fresh s) : Fresh (s.next i o r w') := by
  refine h.concat ?_
  intro sub record frame hop
  simp only at hop
  subst hop
  simp [Op.silent] at ho

/-- No subscription is added, so accounts need only follow the positions. -/
theorem Accounts.silent (h : Accounts s) (hrows : RowInv s) (hg : Grows R s (s.next i o r w'))
    (hpos : ∀ id row topic, s.state.subs.rows.get? id = some row →
      w'.subs.position id topic = s.state.subs.position id topic ∨
        s.AccountedUpTo id topic (w'.subs.position id topic)) : Accounts (s.next i o r w') := by
  refine h.grows hg hpos ?_
  intro p hp hnone
  rw [added_next ho] at hp
  obtain ⟨row, hrow, -⟩ := hrows.added p hp
  rw [hrow] at hnone
  cases hnone

end SilentTrace

/-! ## Moving a position -/

section SetHighWater

variable {id topic : String} {o : Int} {row : Subscription}

/-- The snapshot after a position was set. -/
abbrev Snapshot.positioned (s : Snapshot cfg fuel) (i : Nat) (id topic : String) (o : Int) :
    Snapshot cfg fuel :=
  s.next i (.setHighWater id topic o) ()
    { s.state with subs := s.state.subs.setHighWater id topic o }

theorem Grows.setHighWater (hmono : R.monotone = true → s.state.subs.position id topic ≤ o) :
    Grows R s (s.positioned i id topic o) where
  trace := ⟨_, rfl, fun _ item h => .inl ⟨item, h, .refl _⟩⟩
  appended := fun name r hr => by rw [appended_next rfl] at hr; exact .inl hr
  added := fun p hp => by rw [added_next rfl] at hp; exact .inl hp
  clock := Int.le_refl _
  store := .refl _
  rows := fun _ row h => ⟨row, h, .refl _⟩
  attempts := fun _ h => h
  backend := rfl
  position := by
    intro hm id' topic'
    simp only [Snapshot.next_state, SubscriptionStore.position_setHighWater]
    split
    · rename_i heq
      rw [heq.1, heq.2]
      exact hmono hm
    · exact Int.le_refl _

/-- Under the lock nobody else notices. -/
theorem Keeps.setHighWater (hmono : R.monotone = true → s.state.subs.position id topic ≤ o)
    (hlock : s.state.locks.get? id = some i) : Keeps R i s (s.positioned i id topic o) :=
  { Grows.setHighWater hmono with
    protects := by
      intro id' k hk hlock'
      refine ⟨hlock', ?_, fun name => sends_next rfl _ _⟩
      intro name
      have hne : id' ≠ id := by
        intro heq
        rw [heq, hlock] at hlock'
        exact hk (by simpa using hlock'.symm)
      simp [hne]
    takeUp := fun k hk => by simp [Ne.symm hk]
    lapsed := fun _ => .of_rows_eq rfl (Int.le_refl _) }

theorem Inv.setHighWater (h : Inv R s) (hrow : s.state.subs.rows.get? id = some row)
    (hmono : R.monotone = true → s.state.subs.position id topic ≤ o)
    (hbound : R.bounded = true → o < s.state.store.count topic)
    (hlock : R.ordered = true → s.state.locks.get? id ≠ none)
    (hacc : R.accounted = true → s.AccountedUpTo id topic o) :
    Inv R (s.positioned i id topic o) := by
  have hg := Grows.setHighWater (s := s) (i := i) hmono
  refine { store := ?store, rows := ?rows, queue := ?queue, removals := ?removals, bounded := ?bounded,
           ordered := ?ordered, accounts := ?accounts, gated := ?gated, fresh := ?fresh }
  case store =>
    exact h.store.congr rfl rfl fun name => appended_next rfl name
  case rows =>
    obtain ⟨h₁, h₂, h₃⟩ := h.rows
    refine ⟨h₁, ?_, ?_⟩
    · intro id' hnone
      have hne : id' ≠ id := by
        intro heq
        rw [Snapshot.next_state, heq] at hnone
        cases (hrow.symm.trans hnone)
      obtain ⟨hp, hl, hs⟩ := h₂ id' hnone
      refine ⟨?_, hl, fun name => by rw [sends_next rfl]; exact hs name⟩
      simp [SubscriptionStore.setHighWater, hne, hp]
    · intro p hp
      rw [added_next rfl] at hp
      exact h₃ p hp
  case queue =>
    exact h.queue.grows rfl ⟨_, rfl⟩
  case removals =>
    exact h.removals.silent rfl
  case bounded =>
    intro hb
    refine (h.bounded hb).grows hg ?_ (fun _ _ => .inl)
    intro id' topic'
    simp only [Snapshot.next_state, SubscriptionStore.position_setHighWater]
    split
    · rename_i heq
      rw [heq.2]
      exact .inr (hbound hb)
    · exact .inl rfl
  case ordered =>
    intro hord
    obtain ⟨h₁, h₂⟩ := h.ordered hord
    refine ⟨fun id' name => by rw [sends_next rfl]; exact h₁ id' name, ?_⟩
    intro id' hfree name p hp
    have hne : id' ≠ id := fun heq => hlock hord (by rw [← heq]; exact hfree)
    rw [sends_next rfl] at hp
    simp only [Snapshot.next_state, SubscriptionStore.position_setHighWater, hne, false_and, if_false]
    exact h₂ id' hfree name p hp
  case accounts =>
    intro ha
    refine (h.accounts ha).silent rfl h.rows hg ?_
    intro id' row' name _
    simp only [SubscriptionStore.position_setHighWater]
    split
    · rename_i heq
      rw [heq.1, heq.2]
      exact .inr (hacc ha)
    · exact .inl rfl
  case gated =>
    exact fun hgate => (h.gated hgate).silent rfl
  case fresh =>
    exact fun hm => (h.fresh hm).silent rfl

end SetHighWater

/-! ## Locks -/

section Locks

variable {id : String} {row : Subscription}

/-- The snapshot after a call that only changed the locks. -/
abbrev Snapshot.relocked (s : Snapshot cfg fuel) (i : Nat) (o : Op) (r : o.Res)
    (locks : Dict String Nat) : Snapshot cfg fuel :=
  s.next i o r { s.state with locks := locks }

private theorem grows_relocked (o : Op) (ho : o.silent = true) (r : o.Res)
    (locks : Dict String Nat) : Grows R s (s.relocked i o r locks) where
  trace := ⟨_, rfl, fun _ item h => .inl ⟨item, h, .refl _⟩⟩
  appended := fun name q hq => by rw [appended_next ho] at hq; exact .inl hq
  added := fun p hp => by rw [added_next ho] at hp; exact .inl hp
  clock := Int.le_refl _
  store := .refl _
  rows := fun _ row h => ⟨row, h, .refl _⟩
  attempts := fun _ h => h
  backend := rfl
  position := fun _ _ _ => Int.le_refl _

private theorem inv_relocked (h : Inv R s) (o : Op) (ho : o.silent = true) (r : o.Res)
    (locks : Dict String Nat)
    (habsent : ∀ id, s.state.subs.rows.get? id = none → locks.get? id = none)
    (hfree : R.ordered = true → ∀ id, locks.get? id = none → s.CaughtUp id) :
    Inv R (s.relocked i o r locks) := by
  have hg := grows_relocked (R := R) (s := s) (i := i) o ho r locks
  refine { store := ?store, rows := ?rows, queue := ?queue, removals := ?removals, bounded := ?bounded,
           ordered := ?ordered, accounts := ?accounts, gated := ?gated, fresh := ?fresh }
  case store =>
    exact h.store.congr rfl rfl fun name => appended_next ho name
  case rows =>
    obtain ⟨h₁, h₂, h₃⟩ := h.rows
    refine ⟨h₁, ?_, ?_⟩
    · intro id' hnone
      obtain ⟨hp, -, hs⟩ := h₂ id' hnone
      exact ⟨hp, habsent id' hnone, fun name => by rw [sends_next ho]; exact hs name⟩
    · intro p hp
      rw [added_next ho] at hp
      exact h₃ p hp
  case queue =>
    exact h.queue.grows rfl ⟨_, rfl⟩
  case removals =>
    exact h.removals.silent ho
  case bounded =>
    exact fun hb => (h.bounded hb).grows hg (fun _ _ => .inl rfl) (fun _ _ => .inl)
  case ordered =>
    intro hord
    refine ⟨fun id' name => by rw [sends_next ho]; exact (h.ordered hord).inOrder id' name, ?_⟩
    intro id' hnone name p hp
    rw [sends_next ho] at hp
    exact hfree hord id' hnone name p hp
  case accounts =>
    exact fun ha => (h.accounts ha).silent ho h.rows hg fun _ _ _ _ => .inl rfl
  case gated =>
    exact fun hgate => (h.gated hgate).silent ho
  case fresh =>
    exact fun hm => (h.fresh hm).silent ho

theorem Inv.acquire (h : Inv R s) (hrow : s.state.subs.rows.get? id = some row) :
    Inv R (s.relocked i (.acquire id) () (s.state.locks.set id i)) := by
  refine inv_relocked h (.acquire id) rfl () _ ?_ ?_
  · intro id' hnone
    have hne : id' ≠ id := by
      intro heq
      rw [heq, hrow] at hnone
      cases hnone
    rw [Dict.get?_set, if_neg hne]
    exact (h.rows.absent id' hnone).2.1
  · intro hord id' hnone
    rw [Dict.get?_set] at hnone
    split at hnone
    · cases hnone
    · exact (h.ordered hord).caughtUp id' hnone

theorem Keeps.acquire (hfree : s.state.locks.get? id = none) :
    Keeps R i s (s.relocked i (.acquire id) () (s.state.locks.set id i)) :=
  { grows_relocked (i := i) (.acquire id) rfl () _ with
    protects := by
      intro id' k _ hlock'
      refine ⟨?_, fun _ => rfl, fun name => sends_next rfl _ _⟩
      have hne : id' ≠ id := by
        intro heq
        rw [heq, hfree] at hlock'
        cases hlock'
      simp [hne, hlock']
    takeUp := fun k hk => by simp [Ne.symm hk]
    lapsed := fun _ => .of_rows_eq rfl (Int.le_refl _) }

/-- A task that takes a lock keeps what it has. -/
theorem Interferes.acquire :
    Interferes R i s (s.relocked i (.acquire id) () (s.state.locks.set id i)) :=
  { grows_relocked (i := i) (.acquire id) rfl () _ with
    protects := by
      intro id' hlock'
      refine ⟨?_, fun _ => rfl, fun name => sends_next rfl _ _⟩
      simp only [Snapshot.next_state, Dict.get?_set]
      split
      · rfl
      · exact hlock'
    takeUp := by simp [Entry.takesUp]
    lapsed := fun _ => .of_rows_eq rfl (Int.le_refl _) }

theorem Inv.release (h : Inv R s) (hcaught : R.ordered = true → s.CaughtUp id) :
    Inv R (s.relocked i (.release id) () (s.state.locks.erase id)) := by
  refine inv_relocked h (.release id) rfl () _ ?_ ?_
  · intro id' hnone
    rw [Dict.get?_erase]
    split
    · rfl
    · exact (h.rows.absent id' hnone).2.1
  · intro hord id' hnone
    rw [Dict.get?_erase] at hnone
    split at hnone
    · rename_i heq
      rw [heq]
      exact hcaught hord
    · exact (h.ordered hord).caughtUp id' hnone

theorem Keeps.release (hlock : s.state.locks.get? id = some i) :
    Keeps R i s (s.relocked i (.release id) () (s.state.locks.erase id)) :=
  { grows_relocked (i := i) (.release id) rfl () _ with
    protects := by
      intro id' k hk hlock'
      refine ⟨?_, fun _ => rfl, fun name => sends_next rfl _ _⟩
      have hne : id' ≠ id := by
        intro heq
        rw [heq, hlock] at hlock'
        exact hk (by simpa using hlock'.symm)
      simp [Dict.get?_erase, hne, hlock']
    takeUp := fun k hk => by simp [Ne.symm hk]
    lapsed := fun _ => .of_rows_eq rfl (Int.le_refl _) }

end Locks

/-! ## Sending -/

section Send

variable {sub : Subscription} {record : EventRecord} {attempt : Nat} {frame : Frame}
  {r : (Op.send sub record attempt frame).Res} {row : Subscription}

/-- A send shows in the sends of its own subscription and topic. -/
theorem mem_sent?_send {w : World} {id topic : String} {p : Nat × Nat} :
    @Entry.sent? cfg fuel id topic ⟨i, .send sub record attempt frame, r, w⟩ =
      some p ↔ sub.subscriptionId = id ∧ record.topic = topic ∧
        Cursor.offsetOf record.cursor = .ok p.1 ∧ attempt = p.2 := by
  obtain ⟨o, n⟩ := p
  simp only [Entry.sent?]
  split
  · rename_i h
    cases Cursor.offsetOf record.cursor <;> simp [h]
  · rename_i h
    simp only [reduceCtorEq, false_iff]
    exact fun h' => h ⟨h'.1, h'.2.1⟩

private theorem sends_send_ne {id : String} (hne : id ≠ sub.subscriptionId) (topic : String) :
    sends (s.next i (.send sub record attempt frame) r s.state).trace id topic =
      sends s.trace id topic := by
  have : @Entry.sent? cfg fuel id topic
      ⟨i, .send sub record attempt frame, r, s.state⟩ = none := by
    rw [Option.eq_none_iff_forall_ne_some]
    intro p hp
    exact hne (mem_sent?_send.mp hp).1.symm
  simp [this]

theorem Grows.send : Grows R s (s.next i (.send sub record attempt frame) r s.state) where
  trace := ⟨_, rfl, fun _ item h => .inl ⟨item, h, .refl _⟩⟩
  appended := fun name q hq => by
    simp only [Snapshot.next_trace, appended_concat, Entry.appended?, Option.toList_none,
      List.append_nil] at hq
    exact .inl hq
  added := fun p hp => by
    simp only [Snapshot.next_trace, added_concat, Entry.added?, Option.toList_none,
      List.append_nil] at hp
    exact .inl hp
  clock := Int.le_refl _
  store := .refl _
  rows := fun _ row h => ⟨row, h, .refl _⟩
  attempts := fun _ h => h
  backend := rfl
  position := fun _ _ _ => Int.le_refl _

theorem Keeps.send (hlock : s.state.locks.get? sub.subscriptionId = some i) :
    Keeps R i s (s.next i (.send sub record attempt frame) r s.state) :=
  { Grows.send with
    protects := by
      intro id k hk hlock'
      have hne : id ≠ sub.subscriptionId := by
        intro heq
        rw [heq, hlock] at hlock'
        exact hk (by simpa using hlock'.symm)
      exact ⟨hlock', fun _ => rfl, fun name => sends_send_ne hne name⟩
    takeUp := fun k hk => by simp [Ne.symm hk]
    lapsed := fun _ => .of_rows_eq rfl (Int.le_refl _) }

theorem Inv.send (h : Inv R s) (hrow : s.state.subs.rows.get? sub.subscriptionId = some row)
    (hord : R.ordered = true → s.state.locks.get? sub.subscriptionId ≠ none ∧
      ∀ o, Cursor.offsetOf record.cursor = .ok o →
        MayFollow (sends s.trace sub.subscriptionId record.topic) (o, attempt))
    (hgate : R.gated = true → Snapshot.Admitted s.trace i sub.subscriptionId)
    (hfresh : R.monotone = true → attempt = 1 → ∀ o, record.LiesAt record.topic o →
      s.state.subs.position sub.subscriptionId record.topic < o) :
    Inv R (s.next i (.send sub record attempt frame) r s.state) := by
  have hg : Grows R s (s.next i (.send sub record attempt frame) r s.state) := .send
  have hadd : added (s.next i (.send sub record attempt frame) r s.state).trace =
      added s.trace := by simp [Entry.added?]
  refine { store := ?store, rows := ?rows, queue := ?queue, removals := ?removals, bounded := ?bounded,
           ordered := ?ordered, accounts := ?accounts, gated := ?gated, fresh := ?fresh }
  case store =>
    exact h.store.congr rfl rfl fun name => by simp [Entry.appended?]
  case rows =>
    obtain ⟨h₁, h₂, h₃⟩ := h.rows
    refine ⟨h₁, ?_, ?_⟩
    · intro id hnone
      have hne : id ≠ sub.subscriptionId := by
        intro heq
        rw [Snapshot.next_state, heq, hrow] at hnone
        cases hnone
      obtain ⟨hp, hl, hs⟩ := h₂ id hnone
      exact ⟨hp, hl, fun name => by rw [sends_send_ne hne]; exact hs name⟩
    · intro p hp
      rw [hadd] at hp
      exact h₃ p hp
  case queue =>
    exact h.queue.grows rfl ⟨_, rfl⟩
  case removals =>
    exact h.removals.concat (fun _ hop => (by cases hop))
  case bounded =>
    exact fun hb => (h.bounded hb).grows hg (fun _ _ => .inl rfl) (fun _ _ => .inl)
  case ordered =>
    intro ho
    obtain ⟨h₁, h₂⟩ := h.ordered ho
    obtain ⟨hlock, hfollow⟩ := hord ho
    refine ⟨?_, ?_⟩
    · intro id topic
      rw [Snapshot.next_trace, sends_concat]
      cases hsent : @Entry.sent? cfg fuel id topic
          ⟨i, .send sub record attempt frame, r, s.state⟩ with
      | none => simpa using h₁ id topic
      | some p =>
        obtain ⟨rfl, rfl, hoff, rfl⟩ := mem_sent?_send.mp hsent
        exact (h₁ _ _).concat (hfollow _ hoff)
    · intro id hfree topic p hp
      have hne : id ≠ sub.subscriptionId := fun heq => hlock (by rw [← heq]; exact hfree)
      rw [sends_send_ne hne] at hp
      exact h₂ id hfree topic p hp
  case accounts =>
    intro ha
    refine (h.accounts ha).grows hg (fun _ _ _ _ => .inl rfl) ?_
    intro p hp hnone
    rw [hadd] at hp
    obtain ⟨row', hrow', -⟩ := h.rows.added p hp
    rw [hrow'] at hnone
    cases hnone
  case gated =>
    intro hgate'
    refine gated_concat (w := s.state) (h.gated hgate') ?_
    intro sub' record' attempt' frame' hop
    simp only [Op.send.injEq] at hop
    rw [← hop.1]
    exact hgate hgate'
  case fresh =>
    intro hm
    refine (h.fresh hm).concat ?_
    intro sub' record' frame' hop
    simp only [Op.send.injEq] at hop
    rw [← hop.1, ← hop.2.1]
    exact hfresh hm hop.2.2.1

end Send

/-! ## Adding a subscription -/

section Add

variable {sub : Subscription} {highWater : Dict String Int}

/-- The snapshot after a subscription was added. -/
abbrev Snapshot.joined (s : Snapshot cfg fuel) (i : Nat) (sub : Subscription)
    (highWater : Dict String Int) : Snapshot cfg fuel :=
  s.next i (.add sub highWater) ⟨sub, sub⟩
    { s.state with subs := s.state.subs.add sub highWater }

private theorem get?_joined {id : String} {row : Subscription}
    (h : (s.joined i sub highWater).state.subs.rows.get? id = some row) :
    (id = sub.subscriptionId ∧ row = sub) ∨ s.state.subs.rows.get? id = some row := by
  simp only [Snapshot.next_state, SubscriptionStore.add, Dict.get?_set] at h
  split at h
  · rename_i heq
    exact .inl ⟨heq, by simpa using h.symm⟩
  · exact .inr h

theorem Keeps.add (h : Inv R s) (hnone : s.state.subs.rows.get? sub.subscriptionId = none)
    (hlow : R.monotone = true → ∀ topic, -1 ≤ highWater.getD topic (-1)) :
    Keeps R i s (s.joined i sub highWater) := by
  obtain ⟨hpos, hlock, -⟩ := h.rows.absent _ hnone
  refine ⟨⟨⟨_, rfl, fun _ item h => .inl ⟨item, h, .refl _⟩⟩, ?_, ?_, Int.le_refl _, .refl _, ?_,
    fun _ h => h, rfl, ?_⟩, ?_, ?_, ?_⟩
  · intro name q hq
    simp only [Snapshot.next_trace, appended_concat, Entry.appended?, Option.toList_none,
      List.append_nil] at hq
    exact .inl hq
  · intro p hp
    simp only [Snapshot.next_trace, added_concat, Entry.added?, List.mem_append,
      Option.mem_toList, Option.some.injEq] at hp
    exact hp.imp id fun hp => by rw [← hp]; exact hnone
  · intro id row hrow
    have hne : id ≠ sub.subscriptionId := by
      intro heq
      rw [heq, hnone] at hrow
      cases hrow
    exact ⟨row, by simp [SubscriptionStore.add, hne, hrow], .refl _⟩
  · intro hm id topic
    simp only [Snapshot.next_state, SubscriptionStore.position_add]
    split
    · rename_i heq
      rw [heq, SubscriptionStore.position_of_absent hpos]
      exact hlow hm topic
    · exact Int.le_refl _
  · intro id k _ hlock'
    have hne : id ≠ sub.subscriptionId := by
      intro heq
      rw [heq, hlock] at hlock'
      cases hlock'
    exact ⟨hlock', fun topic => by simp [hne], fun topic => by simp [Entry.sent?]⟩
  · intro k hk
    simp [Ne.symm hk]
  · intro _ _ id row row' hrow hrow'
    rcases get?_joined hrow' with ⟨heq, -⟩ | hrow'
    · rw [heq, hnone] at hrow
      cases hrow
    · rw [hrow] at hrow'
      cases hrow'
      exact ⟨fun hne => hne, fun hl => hl⟩

theorem Inv.add (h : Inv R s) (hnone : s.state.subs.rows.get? sub.subscriptionId = none)
    (hlow : R.monotone = true → ∀ topic, -1 ≤ highWater.getD topic (-1))
    (hbound : R.bounded = true → sub.cursors = ∅ ∧
      ∀ topic, highWater.getD topic (-1) < s.state.store.count topic) :
    Inv R (s.joined i sub highWater) := by
  have hg := (Keeps.add (i := i) h hnone hlow).toGrows
  obtain ⟨-, -, hnosend⟩ := h.rows.absent _ hnone
  have hsend : ∀ id topic, sends (s.joined i sub highWater).trace id topic =
      sends s.trace id topic := fun _ _ => by simp [Entry.sent?]
  have hadd : ∀ p ∈ added (s.joined i sub highWater).trace,
      p ∈ added s.trace ∨ p = (sub, highWater) := by
    intro p hp
    simp only [Snapshot.next_trace, added_concat, Entry.added?, List.mem_append,
      Option.mem_toList, Option.some.injEq] at hp
    exact hp.imp id Eq.symm
  refine { store := ?store, rows := ?rows, queue := ?queue, removals := ?removals, bounded := ?bounded,
           ordered := ?ordered, accounts := ?accounts, gated := ?gated, fresh := ?fresh }
  case store =>
    exact h.store.congr rfl rfl fun name => by simp [Entry.appended?]
  case rows =>
    obtain ⟨h₁, h₂, h₃⟩ := h.rows
    refine ⟨?_, ?_, ?_⟩
    · intro id row hrow
      rcases get?_joined hrow with ⟨rfl, rfl⟩ | hrow
      · rfl
      · exact h₁ id row hrow
    · intro id hrow
      simp only [Snapshot.next_state, SubscriptionStore.add, Dict.get?_set] at hrow ⊢
      split at hrow
      · cases hrow
      · rename_i hne
        obtain ⟨hp, hl, hs⟩ := h₂ id hrow
        exact ⟨by rw [if_neg hne]; exact hp, hl, fun topic => by rw [hsend]; exact hs topic⟩
    · intro p hp
      rcases hadd p hp with hp | rfl
      · obtain ⟨row, hrow, halike⟩ := h₃ p hp
        obtain ⟨row', hrow', halike'⟩ := hg.rows _ row hrow
        exact ⟨row', hrow', halike'.trans halike⟩
      · exact ⟨sub, by simp [SubscriptionStore.add], .refl _⟩
  case queue =>
    exact h.queue.grows rfl ⟨_, rfl⟩
  case removals =>
    exact h.removals.concat (fun _ hop => (by cases hop))
  case bounded =>
    intro hb
    obtain ⟨hempty, hlt⟩ := hbound hb
    refine (h.bounded hb).grows hg ?_ ?_
    · intro id topic
      simp only [Snapshot.next_state, SubscriptionStore.position_add]
      split
      · exact .inr (hlt topic)
      · exact .inl rfl
    · intro id row hrow
      rcases get?_joined hrow with ⟨-, rfl⟩ | hrow
      · exact .inr hempty
      · exact .inl hrow
  case ordered =>
    intro ho
    obtain ⟨h₁, h₂⟩ := h.ordered ho
    refine ⟨fun id topic => by rw [hsend]; exact h₁ id topic, ?_⟩
    intro id hfree topic p hp
    rw [hsend] at hp
    simp only [Snapshot.next_state, SubscriptionStore.position_add]
    split
    · rename_i heq
      rw [heq, hnosend] at hp
      cases hp
    · exact h₂ id hfree topic p hp
  case accounts =>
    intro ha
    refine (h.accounts ha).grows hg ?_ ?_
    · intro id row topic hrow
      have hne : id ≠ sub.subscriptionId := by
        intro heq
        rw [heq, hnone] at hrow
        cases hrow
      exact .inl (by simp [hne])
    · intro p hp hrow topic
      rcases hadd p hp with hp | rfl
      · obtain ⟨row', hrow', -⟩ := h.rows.added p hp
        rw [hrow'] at hrow
        cases hrow
      · simp
  case gated =>
    exact fun hgate => gated_concat (w := s.state) (h.gated hgate) (fun _ _ _ _ hop => (by cases hop))
  case fresh =>
    exact fun hm => (h.fresh hm).concat (fun _ _ _ hop => (by cases hop))

end Add

/-! ## The retry queue -/

section Queue

variable {o : Op} {r : o.Res} {queue : RetryQueue}

/-- The snapshot after a call that only changed the retry queue. -/
abbrev Snapshot.requeued (s : Snapshot cfg fuel) (i : Nat) (o : Op) (r : o.Res)
    (queue : RetryQueue) : Snapshot cfg fuel :=
  s.next i o r { s.state with queue := queue }

private theorem grows_requeue
    (happ : ∀ topic, appended (s.requeued i o r queue).trace topic = appended s.trace topic)
    (hadd : added (s.requeued i o r queue).trace = added s.trace)
    (hkept : QueueKept s (s.requeued i o r queue) [⟨i, o, r, s.state⟩]) :
    Grows R s (s.requeued i o r queue) where
  trace := ⟨_, rfl, hkept⟩
  appended := fun name q hq => by rw [happ] at hq; exact .inl hq
  added := fun p hp => by rw [hadd] at hp; exact .inl hp
  clock := Int.le_refl _
  store := .refl _
  rows := fun _ row h => ⟨row, h, .refl _⟩
  attempts := fun _ h => h
  backend := rfl
  position := fun _ _ _ => Int.le_refl _

/-- Enqueueing under an unused id keeps what is queued. -/
theorem queueKept_enqueue {item : RetryItem}
    (hfree : s.state.queue.items.get? item.retryId = none) :
    QueueKept s (s.requeued i (.enqueue item) () (s.state.queue.enqueue item))
      [⟨i, .enqueue item, (), s.state⟩] := by
  intro id queued hqueued
  have hne : id ≠ item.retryId := by
    intro heq
    rw [heq, hfree] at hqueued
    cases hqueued
  exact .inl ⟨queued, by simp [RetryQueue.enqueue, Dict.get?_set, hne, hqueued], .refl _⟩

theorem Keeps.requeue (ho : o.silent = true)
    (hkept : QueueKept s (s.requeued i o r queue) [⟨i, o, r, s.state⟩]) :
    Keeps R i s (s.requeued i o r queue) :=
  { grows_requeue (appended_next ho) (added_next ho) hkept with
    protects := fun _ _ _ hlock => ⟨hlock, fun _ => rfl, fun _ => sends_next ho _ _⟩
    takeUp := fun k hk => by simp [Ne.symm hk]
    lapsed := fun _ => .of_rows_eq rfl (Int.le_refl _) }

theorem Interferes.requeue (ho : o.silent = true) (ht : o.takesUp = false)
    (hkept : QueueKept s (s.requeued i o r queue) [⟨i, o, r, s.state⟩]) :
    Interferes R i s (s.requeued i o r queue) :=
  { grows_requeue (appended_next ho) (added_next ho) hkept with
    protects := fun _ hlock => ⟨hlock, fun _ => rfl, fun _ => sends_next ho _ _⟩
    takeUp := by simp [Op.entry_takesUp, ht]
    lapsed := fun _ => .of_rows_eq rfl (Int.le_refl _) }

theorem Inv.requeue (h : Inv R s) (ho : o.silent = true)
    (hkept : QueueKept s (s.requeued i o r queue) [⟨i, o, r, s.state⟩])
    (hqueue : ∀ id item, queue.items.get? id = some item → item.retryId = id ∧ s.Owes item) :
    Inv R (s.requeued i o r queue) := by
  have hg := grows_requeue (R := R) (appended_next ho) (added_next ho) hkept
  refine ⟨?_, ?_, ?_, h.removals.silent ho, ?_, ?_, ?_, ?_, ?_⟩
  · exact h.store.congr rfl rfl (appended_next ho)
  · obtain ⟨h₁, h₂, h₃⟩ := h.rows
    refine ⟨h₁, ?_, fun p hp => h₃ p (by rw [added_next ho] at hp; exact hp)⟩
    intro id hnone
    obtain ⟨hp, hl, hs⟩ := h₂ id hnone
    exact ⟨hp, hl, fun topic => by rw [sends_next ho]; exact hs topic⟩
  · intro id item hitem
    obtain ⟨hid, hattempt, howes⟩ := hqueue id item hitem
    refine ⟨hid, hattempt, ?_⟩
    rw [appended_next ho]
    exact howes
  · exact fun hb => (h.bounded hb).grows hg (fun _ _ => .inl rfl) (fun _ _ => .inl)
  · intro hord
    obtain ⟨h₁, h₂⟩ := h.ordered hord
    refine ⟨fun id topic => by rw [sends_next ho]; exact h₁ id topic, ?_⟩
    intro id hfree topic p hp
    rw [sends_next ho] at hp
    exact h₂ id hfree topic p hp
  · exact fun ha => (h.accounts ha).silent ho h.rows hg fun _ _ _ _ => .inl rfl
  · exact fun hgate => (h.gated hgate).silent ho
  · exact fun hm => (h.fresh hm).silent ho

end Queue

section Complete

variable {retryId : String}

/-- The snapshot after an item was removed from the retry queue. -/
abbrev Snapshot.completed (s : Snapshot cfg fuel) (i : Nat) (retryId : String) :
    Snapshot cfg fuel :=
  s.requeued i (.complete retryId) () (s.state.queue.complete retryId)

private theorem queueKept_completed :
    QueueKept s (s.completed i retryId) [⟨i, .complete retryId, (), s.state⟩] := by
  intro id item hitem
  by_cases hid : id = retryId
  · exact .inr ⟨_, List.mem_singleton.mpr rfl, hid.symm, item, hitem, .refl _⟩
  · exact .inl ⟨item, by simp [RetryQueue.complete, Dict.get?_erase, hid, hitem], .refl _⟩

theorem Keeps.complete : Keeps R i s (s.completed i retryId) :=
  { grows_requeue (fun _ => by simp [Entry.appended?]) (by simp [Entry.added?])
      queueKept_completed with
    protects := fun _ _ _ hlock => ⟨hlock, fun _ => rfl, fun _ => by simp [Entry.sent?]⟩
    takeUp := fun k hk => by simp [Ne.symm hk]
    lapsed := fun _ => .of_rows_eq rfl (Int.le_refl _) }

theorem Inv.complete (h : Inv R s)
    (hreleased : ∀ item, s.state.queue.items.get? retryId = some item → s.state.Released item) :
    Inv R (s.completed i retryId) := by
  have hk : Keeps R i s (s.completed i retryId) := .complete
  have hg := hk.toGrows
  have hsend : ∀ id topic, sends (s.completed i retryId).trace id topic = sends s.trace id topic :=
    fun _ _ => by simp [Entry.sent?]
  have hadd : added (s.completed i retryId).trace = added s.trace := by simp [Entry.added?]
  refine { store := ?store, rows := ?rows, queue := ?queue, removals := ?removals, bounded := ?bounded,
           ordered := ?ordered, accounts := ?accounts, gated := ?gated, fresh := ?fresh }
  case store =>
    exact h.store.congr rfl rfl fun _ => by simp [Entry.appended?]
  case rows =>
    obtain ⟨h₁, h₂, h₃⟩ := h.rows
    refine ⟨h₁, ?_, fun p hp => h₃ p (by rw [hadd] at hp; exact hp)⟩
    intro id hnone
    obtain ⟨hp, hl, hs⟩ := h₂ id hnone
    exact ⟨hp, hl, fun topic => by rw [hsend]; exact hs topic⟩
  case queue =>
    intro id item hitem
    simp only [Snapshot.next_state, RetryQueue.complete, Dict.get?_erase] at hitem
    split at hitem
    · cases hitem
    · obtain ⟨hid, hattempt, q, hq, howes⟩ := h.queue id item hitem
      exact ⟨hid, hattempt, q, by simpa [Entry.appended?] using hq, howes⟩
  case removals =>
    refine h.removals.concat ?_
    intro id hop item hitem
    simp only [Op.complete.injEq] at hop
    subst hop
    exact hreleased item hitem
  case bounded =>
    exact fun hb => (h.bounded hb).grows hg (fun _ _ => .inl rfl) (fun _ _ => .inl)
  case ordered =>
    intro hord
    obtain ⟨h₁, h₂⟩ := h.ordered hord
    refine ⟨fun id topic => by rw [hsend]; exact h₁ id topic, ?_⟩
    intro id hfree topic p hp
    rw [hsend] at hp
    exact h₂ id hfree topic p hp
  case accounts =>
    intro ha
    refine (h.accounts ha).grows hg (fun _ _ _ _ => .inl rfl) ?_
    intro p hp hnone
    rw [hadd] at hp
    obtain ⟨row, hrow, -⟩ := h.rows.added p hp
    rw [hrow] at hnone
    cases hnone
  case gated =>
    exact fun hgate => gated_concat (w := s.state) (h.gated hgate) (fun _ _ _ _ hop => (by cases hop))
  case fresh =>
    exact fun hm => (h.fresh hm).concat (fun _ _ _ hop => (by cases hop))

end Complete

end A2AEvents
