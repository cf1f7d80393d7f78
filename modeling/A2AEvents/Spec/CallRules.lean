import A2AEvents.Spec.Discipline

/-!
# Proof rules for the calls of a task

Each call of the publisher keeps the invariant under a condition of its own. Most calls
are calm: they touch neither positions, locks nor the retry queue.

## Key results

- `Triple.bind`, `Triple.call`, `Triple.read`, `Triple.quiet`, `Triple.calm`: symbolic execution
- `Inv.calm`, `Keeps.calm`: what calm calls keep
-/

namespace A2AEvents

open Async Publisher

variable {cfg : PublisherConfig} {fuel : Nat}

/-- The snapshot after a call. -/
def Snapshot.next (s : Snapshot cfg fuel) (i : Nat) (o : Op) (r : o.Res) (w : World) :
    Snapshot cfg fuel := ⟨w, s.trace ++ [⟨i, o, r, s.state⟩]⟩

@[simp] theorem Snapshot.next_state (s : Snapshot cfg fuel) (i : Nat) (o : Op) (r : o.Res)
    (w : World) : (s.next i o r w).state = w := rfl

@[simp] theorem Snapshot.next_trace (s : Snapshot cfg fuel) (i : Nat) (o : Op) (r : o.Res)
    (w : World) : (s.next i o r w).trace = s.trace ++ [⟨i, o, r, s.state⟩] := rfl

/-- A call of a task, and the world after it. -/
theorem Snapshot.exec_cases {i : Nat} {o : Op} {c : Choice} {r : o.Res} {s s' : Snapshot cfg fuel}
    (hex : (sem cfg fuel).traced.exec i o c s = some (r, s')) :
    ∃ w, World.exec i o c s.state = some (r, w) ∧ s' = s.next i o r w := by
  obtain ⟨p, hcall, heq⟩ := Option.map_eq_some_iff.mp hex
  cases heq
  exact ⟨p.2, hcall, rfl⟩

/-! ## Positions -/

@[simp] theorem SubscriptionStore.position_setHighWater (store : SubscriptionStore)
    (id topic id' topic' : String) (o : Int) :
    (store.setHighWater id topic o).position id' topic' =
      if id' = id ∧ topic' = topic then o else store.position id' topic' := by
  by_cases hid : id' = id
  · subst hid
    by_cases ht : topic' = topic
    · simp [position, highWater, setHighWater, Dict.getD, ht]
    · simp [position, highWater, setHighWater, Dict.getD, ht]
  · simp [position, highWater, setHighWater, hid]

@[simp] theorem SubscriptionStore.position_add (store : SubscriptionStore) (sub : Subscription)
    (highWater : Dict String Int) (id topic : String) :
    (store.add sub highWater).position id topic =
      if id = sub.subscriptionId then highWater.getD topic (-1) else store.position id topic := by
  by_cases hid : id = sub.subscriptionId
  · simp [position, SubscriptionStore.highWater, add, hid]
  · simp [position, SubscriptionStore.highWater, add, hid]

/-! ## Calm calls -/

/-- The change of a call that touches neither positions, locks nor queue: the event store
    only grows, rows keep the fields that never change and acked cursors stay below the
    heads. -/
structure World.Calm (R : Regime) (w w' : World) : Prop where
  clock : w'.clock = w.clock
  wf : w.store.Wf → w'.store.Wf
  store : w.store.Grows w'.store
  events : ∀ topic, ∀ r ∈ w'.store.events topic, r ∈ w.store.events topic
  cache : ∀ name topic, w'.topics.get? name = some topic → w.topics.get? name = some topic ∨
    ∃ log, w.store.logs.get? name = some log ∧ log.topic = topic
  rows : ∀ id row, w.subs.rows.get? id = some row →
    ∃ row', w'.subs.rows.get? id = some row' ∧ row'.Alike row
  absent : ∀ id, w'.subs.rows.get? id = none → w.subs.rows.get? id = none
  present : ∀ id, w.subs.rows.get? id = none → w'.subs.rows.get? id = none
  positions : w'.subs.positions = w.subs.positions
  backend : w'.subs.backend = w.subs.backend
  queue : w'.queue = w.queue
  locks : w'.locks = w.locks
  attempts : ∀ a ∈ w.subs.attempts, a ∈ w'.subs.attempts
  acked : R.bounded = true → ∀ id row topic cursor, w'.subs.rows.get? id = some row →
    row.cursors.get? topic = some cursor →
    (∃ row₀, w.subs.rows.get? id = some row₀ ∧ row₀.cursors.get? topic = some cursor) ∨
      ∃ o, Cursor.split cursor = .ok (topic, o) ∧ o < w.store.count topic

/-- Nothing the invariant speaks about changes, except that attempts may be added and
    known topics cached. -/
structure World.Quiet (w w' : World) : Prop where
  clock : w'.clock = w.clock
  store : w'.store = w.store
  cache : ∀ name topic, w'.topics.get? name = some topic → w.topics.get? name = some topic ∨
    ∃ log, w.store.logs.get? name = some log ∧ log.topic = topic
  rows : w'.subs.rows = w.subs.rows
  positions : w'.subs.positions = w.subs.positions
  backend : w'.subs.backend = w.subs.backend
  queue : w'.queue = w.queue
  locks : w'.locks = w.locks
  attempts : ∀ a ∈ w.subs.attempts, a ∈ w'.subs.attempts

theorem World.Quiet.refl (w : World) : w.Quiet w :=
  ⟨rfl, rfl, fun _ _ => .inl, rfl, rfl, rfl, rfl, rfl, fun _ h => h⟩

theorem World.Quiet.calm {R : Regime} {w w' : World} (h : w.Quiet w') : w.Calm R w' where
  clock := h.clock
  wf := by rw [h.store]; exact id
  store := by rw [h.store]; exact .refl _
  events := by rw [h.store]; exact fun _ _ hr => hr
  cache := h.cache
  rows := by rw [h.rows]; exact fun _ row hrow => ⟨row, hrow, .refl _⟩
  absent := by rw [h.rows]; exact fun _ => id
  present := by rw [h.rows]; exact fun _ => id
  positions := h.positions
  backend := h.backend
  queue := h.queue
  locks := h.locks
  attempts := h.attempts
  acked := by rw [h.rows]; exact fun _ _ row _ _ hrow hc => .inl ⟨row, hrow, hc⟩

theorem World.Calm.position {R : Regime} {w w' : World} (h : w.Calm R w') (id topic : String) :
    w'.subs.position id topic = w.subs.position id topic := by
  simp only [SubscriptionStore.position, SubscriptionStore.highWater, h.positions]

/-- Calls that add nothing to the history of appends, subscriptions, sends and removals. -/
def Op.silent : Op → Bool
  | .append .. | .add .. | .send .. | .complete _ => false
  | _ => true

/-- Calls that only look. -/
def Op.reads : Op → Bool
  | .getTopic _ | .read .. | .count _ | .latestCursor _ | .get _ | .listAll | .highWater _ | .sleep _
  | .now | .deref _ | .cachedTopic _ | .authorizeSubscribe .. | .authorizeDelivery _
  | .rateLimit .. => true
  | _ => false

/-- Calls with which a task takes a subscription up. -/
def Op.takesUp : Op → Bool
  | .get _ | .authorizeDelivery _ => true
  | _ => false

theorem World.exec_reads {o : Op} (ho : o.reads = true) {i : Nat} {c : Choice} {w w' : World}
    {r : o.Res} (h : World.exec i o c w = some (r, w')) : w' = w := by
  cases o <;> simp [Op.reads] at ho <;> simp [World.exec] at h <;>
    first | exact h.2.symm | exact h.symm

section Silent

variable {o : Op} (ho : o.silent = true) (i : Nat) (r : o.Res) (w : World)

include ho

theorem Op.appended?_silent (topic : String) :
    @Entry.appended? cfg fuel topic ⟨i, o, r, w⟩ = none := by
  cases o <;> first | rfl | simp [Op.silent] at ho

theorem Op.added?_silent : @Entry.added? cfg fuel ⟨i, o, r, w⟩ = none := by
  cases o <;> first | rfl | simp [Op.silent] at ho

theorem Op.sent?_silent (id topic : String) :
    @Entry.sent? cfg fuel id topic ⟨i, o, r, w⟩ = none := by
  cases o <;> first | rfl | simp [Op.silent] at ho

end Silent

theorem Op.entry_takesUp {o : Op} (i : Nat) (r : o.Res) (w : World) :
    @Entry.takesUp cfg fuel ⟨i, o, r, w⟩ = o.takesUp := by
  cases o <;> rfl

/-- What is accounted for stays so. -/
theorem Snapshot.Accounted.mono {s s' : Snapshot cfg fuel} {sub : Subscription} {topic : String}
    {record : EventRecord} {o : Nat} (h : s.Accounted sub topic record o)
    (htrace : ∃ l, s'.trace = s.trace ++ l) (hstore : s.state.store.Grows s'.state.store)
    (hattempts : ∀ a ∈ s.state.subs.attempts, a ∈ s'.state.subs.attempts) :
    s'.Accounted sub topic record o := by
  rcases h with ⟨log, hlog, hm⟩ | ⟨e, he, hp⟩ | ⟨a, ha, h⟩
  · obtain ⟨log', hlog', htopic, -⟩ := hstore topic log hlog
    exact .inl ⟨log', hlog', by rw [htopic]; exact hm⟩
  · obtain ⟨l, hl⟩ := htrace
    exact .inr (.inl ⟨e, by rw [hl]; exact List.mem_append_left _ he, hp⟩)
  · exact .inr (.inr ⟨a, hattempts a ha, h⟩)

/-- A longer history has a send more at most, its last entry. -/
theorem gated_concat {w w' : World} {trace : List (Entry cfg fuel)} {e : Entry cfg fuel}
    (h : Gated (⟨w, trace⟩ : Snapshot cfg fuel))
    (he : ∀ sub record attempt frame, e.op = .send sub record attempt frame →
      Snapshot.Admitted trace e.task sub.subscriptionId) :
    Gated (⟨w', trace ++ [e]⟩ : Snapshot cfg fuel) := by
  intro before e' after heq sub record attempt frame hop
  rcases List.eq_nil_or_concat after with rfl | ⟨after', last, rfl⟩
  · obtain ⟨rfl, rfl⟩ := by simpa using heq
    exact he sub record attempt frame hop
  · have heq' : trace ++ [e] = (before ++ e' :: after') ++ [last] := by
      simpa using heq
    obtain ⟨htrace, -⟩ := List.append_inj' heq' rfl
    exact h before e' after' htrace sub record attempt frame hop

section Calm

variable {R : Regime} {i : Nat} {o : Op} {r : o.Res} {w' : World} {s : Snapshot cfg fuel}

/-- A calm call keeps the invariant. -/
theorem Inv.calm (h : Inv R s) (ho : o.silent = true) (hq : s.state.Calm R w') :
    Inv R (s.next i o r w') := by
  have happ : ∀ topic, appended (s.next i o r w').trace topic = appended s.trace topic := by
    intro topic; simp [Op.appended?_silent ho]
  have hadd : added (s.next i o r w').trace = added s.trace := by
    simp [Op.added?_silent ho]
  have hsend : ∀ id topic, sends (s.next i o r w').trace id topic = sends s.trace id topic := by
    intro id topic; simp [Op.sent?_silent ho]
  have hpos := hq.position
  refine { store := ?store, rows := ?rows, queue := ?queue, removals := ?removals, bounded := ?bounded,
           ordered := ?ordered, accounts := ?accounts, gated := ?gated, fresh := ?fresh }
  case store =>
    obtain ⟨h₁, h₂, h₃, h₄, h₅⟩ := h.store
    refine ⟨hq.wf h₁, ?_, ?_, ?_, ?_⟩
    · intro name topic hget
      obtain ⟨log, hlog, htopic⟩ := (hq.cache name topic hget).elim (h₂ name topic) id
      obtain ⟨log', hlog', htopic', -⟩ := hq.store name log hlog
      exact ⟨log', hlog', htopic'.trans htopic⟩
    · intro topic q hmem
      rw [happ] at hmem
      obtain ⟨n, hn, hat⟩ := h₃ topic q hmem
      exact ⟨n, Nat.lt_of_lt_of_le hn (hq.store.count topic), hat⟩
    · intro topic
      rw [happ]
      exact h₄ topic
    · intro topic q hmem
      rw [happ]
      exact h₅ topic q (hq.events topic q hmem)
  case rows =>
    obtain ⟨h₁, h₂, h₃⟩ := h.rows
    refine ⟨?_, ?_, ?_⟩
    · intro id row hrow
      cases hold : s.state.subs.rows.get? id with
      | none => rw [Snapshot.next_state, hq.present id hold] at hrow; cases hrow
      | some old =>
        obtain ⟨row', hrow', halike⟩ := hq.rows id old hold
        rw [Snapshot.next_state, hrow'] at hrow
        cases hrow
        rw [halike.subscriptionId]
        exact h₁ id old hold
    · intro id hnone
      simp only [Snapshot.next_state, hq.positions, hq.locks, hsend]
      exact h₂ id (hq.absent id hnone)
    · intro p hp
      rw [hadd] at hp
      obtain ⟨row, hrow, halike⟩ := h₃ p hp
      obtain ⟨row', hrow', halike'⟩ := hq.rows _ row hrow
      exact ⟨row', hrow', halike'.trans halike⟩
  case queue =>
    intro id item hitem
    simp only [Snapshot.next_state, hq.queue] at hitem
    obtain ⟨hid, howes⟩ := h.queue id item hitem
    refine ⟨hid, howes.1, ?_⟩
    simp only [happ]
    exact howes.2
  case removals =>
    intro e he retryId hop item hitem
    rcases List.mem_append.mp he with he | he
    · exact h.removals e he retryId hop item hitem
    · obtain rfl := List.mem_singleton.mp he
      simp only at hop
      subst hop
      simp [Op.silent] at ho
  case bounded =>
    intro hb
    obtain ⟨h₁, h₂, h₃⟩ := h.bounded hb
    have hcount : ∀ topic, s.state.store.count topic ≤ w'.store.count topic := hq.store.count
    refine ⟨hq.backend.trans h₁, ?_, ?_⟩
    · intro id topic
      have := h₂ id topic
      have := hcount topic
      rw [Snapshot.next_state, hpos]
      omega
    · intro id row topic cursor hrow hc
      have hacked : ∃ n, Cursor.split cursor = .ok (topic, n) ∧ n < s.state.store.count topic := by
        rcases hq.acked hb id row topic cursor hrow hc with ⟨row₀, hrow₀, hc₀⟩ | hnew
        · exact h₃ id row₀ topic cursor hrow₀ hc₀
        · exact hnew
      obtain ⟨n, hn, hlt⟩ := hacked
      exact ⟨n, hn, Nat.lt_of_lt_of_le hlt (hcount topic)⟩
  case ordered =>
    intro ho'
    obtain ⟨h₁, h₂⟩ := h.ordered ho'
    refine ⟨?_, ?_⟩
    · simp only [hsend]; exact h₁
    · intro id hlock topic p hp
      simp only [Snapshot.next_state, hq.locks] at hlock
      rw [hsend] at hp
      rw [Snapshot.next_state, hpos]
      exact h₂ id hlock topic p hp
  case accounts =>
    intro ha id topic p hp hid
    rw [hadd] at hp
    obtain ⟨hreach, hacc⟩ := h.accounts ha id topic p hp hid
    have hcount := hq.store.count topic
    rw [Snapshot.next_state, hpos]
    refine ⟨hreach.imp_left fun hlt => by omega, ?_⟩
    intro rec hrec n hn hlt hle
    rw [happ] at hrec
    exact (hacc rec hrec n hn hlt hle).mono ⟨_, rfl⟩ hq.store hq.attempts
  case gated =>
    intro hg
    refine gated_concat (w := s.state) (h.gated hg) ?_
    intro sub record attempt frame hop
    simp only at hop
    subst hop
    simp [Op.silent] at ho
  case fresh =>
    intro hm e he sub record frame hop n hn
    rcases List.mem_append.mp he with he | he
    · exact h.fresh hm e he sub record frame hop n hn
    · obtain rfl := List.mem_singleton.mp he
      simp only at hop
      subst hop
      simp [Op.silent] at ho

theorem Grows.calm (ho : o.silent = true) (hq : s.state.Calm R w') :
    Grows R s (s.next i o r w') where
  trace := by
    refine ⟨_, rfl, fun id item hitem => .inl ⟨item, ?_, .refl _⟩⟩
    rw [Snapshot.next_state, hq.queue]
    exact hitem
  appended := by
    intro topic q hmem
    simp only [Snapshot.next_trace, appended_concat, Op.appended?_silent ho, Option.toList_none,
      List.append_nil] at hmem
    exact .inl hmem
  added := by
    intro p hp
    simp only [Snapshot.next_trace, added_concat, Op.added?_silent ho, Option.toList_none,
      List.append_nil] at hp
    exact .inl hp
  clock := by simp [hq.clock]
  store := hq.store
  rows := hq.rows
  attempts := hq.attempts
  backend := hq.backend
  position := fun _ id topic => by rw [Snapshot.next_state, hq.position]

theorem Protects.calm (ho : o.silent = true) (hq : s.state.Calm R w') {k : Nat} {id : String}
    (hlock : s.state.locks.get? id = some k) : Protects k id s (s.next i o r w') where
  lock := by rw [Snapshot.next_state, hq.locks]; exact hlock
  position := fun topic => by rw [Snapshot.next_state, hq.position]
  sends := fun topic => by simp [Op.sent?_silent ho]

theorem Keeps.calm (ho : o.silent = true) (hq : s.state.Calm R w')
    (hx : R.gated = true → StaysLapsed s (s.next i o r w')) : Keeps R i s (s.next i o r w') :=
  { Grows.calm ho hq with
    protects := fun _ _ _ hlock => .calm ho hq hlock
    takeUp := fun k hk => by simp [Ne.symm hk]
    lapsed := hx }

theorem Interferes.calm (ho : o.silent = true) (ht : o.takesUp = false) (hq : s.state.Calm R w')
    (hx : R.gated = true → StaysLapsed s (s.next i o r w')) : Interferes R i s (s.next i o r w') :=
  { Grows.calm ho hq with
    protects := fun _ hlock => .calm ho hq hlock
    takeUp := by simp [Op.entry_takesUp, ht]
    lapsed := hx }

theorem Idles.quiet (ho : o.silent = true) (ht : o.takesUp = false) (hq : s.state.Quiet w') :
    Idles R i s (s.next i o r w') :=
  { Interferes.calm ho ht hq.calm fun _ => .of_rows_eq hq.rows (Int.le_of_eq hq.clock.symm) with
    logs := hq.store
    subscriptions := hq.rows
    positions := hq.positions
    queue := hq.queue
    locks := hq.locks }

end Calm

/-! ## Symbolic execution -/

/-- From `s` the program is safe and ends in `P`, or raises in `E`. -/
def Triple {α : Type} (R : Regime) (j : Job) (i : Nat) (p : M α) (P : α → Snapshot cfg fuel → Prop)
    (E : Snapshot cfg fuel → Prop) (s : Snapshot cfg fuel) : Prop :=
  Safe (contract R) j i p (fun r s => match r with
    | .ok a => P a s
    | .error _ => E s) s

/-- An assertion that the tasks beside `i` leave intact. -/
def Stable (R : Regime) (j : Job) (i : Nat) (A : Snapshot cfg fuel → Prop) : Prop :=
  ∀ s s', (contract R).rely j i s s' → A s → A s'

section Rely

variable {R : Regime} {j : Job} {i : Nat} {s s' : Snapshot cfg fuel}

/-- Whatever happens beside a task is interference. -/
theorem interferes_of_rely (h : (contract R).rely j i s s') : Interferes R i s s' := by
  simp only [contract] at h
  split at h
  · exact h.toInterferes
  · exact h

theorem rely_of_idles (h : Idles R i s s') : (contract R).rely j i s s' := by
  simp only [contract]
  split
  · exact h
  · exact h.toInterferes

theorem guar_of_keeps (h : Keeps R i s s') : (contract R).guar j i s s' := by
  simp only [contract]
  split
  · exact h.toGrows
  · exact h

/-- An assertion that survives all interference is stable in every job. -/
theorem Stable.of_interferes {A : Snapshot cfg fuel → Prop}
    (h : ∀ s s', Interferes R i s s' → A s → A s') : Stable R j i A :=
  fun s s' hr => h s s' (interferes_of_rely hr)

/-- An exclusive job may rely on everything but the clock and the grants. -/
theorem Stable.of_idles (hj : R.exclusive j = true) {A : Snapshot cfg fuel → Prop}
    (h : ∀ s s', Idles R i s s' → A s → A s') : Stable R j i A := by
  intro s s' hr
  simp only [contract, hj, if_true] at hr
  exact h s s' hr

/-- Nobody revives a subscription beside a job: where sends have to be admitted, and beside
    exclusive jobs. -/
def Regime.guards (R : Regime) (j : Job) : Prop := R.gated = true ∨ R.exclusive j = true

theorem staysLapsed_of_rely (hg : R.guards j) (h : (contract R).rely j i s s') :
    StaysLapsed s s' := by
  rcases hg with hg | hj
  · exact (interferes_of_rely h).lapsed hg
  · simp only [contract, hj, if_true] at h
    exact .of_rows_eq h.subscriptions h.clock

/-- A stable assertion that the calm calls of the task leave intact, too. -/
structure Firm (R : Regime) (j : Job) (i : Nat) (A : Snapshot cfg fuel → Prop) : Prop where
  stable : Stable R j i A
  calm : ∀ s s', Interferes R i s s' → s'.state.queue = s.state.queue → StaysLapsed s s' →
    A s → A s'

theorem Firm.of_interferes {A : Snapshot cfg fuel → Prop}
    (h : ∀ s s', Interferes R i s s' → A s → A s') : Firm R j i A :=
  ⟨.of_interferes h, fun s s' hr _ _ => h s s' hr⟩

theorem Firm.and {A B : Snapshot cfg fuel → Prop} (hA : Firm R j i A) (hB : Firm R j i B) :
    Firm R j i fun s => A s ∧ B s :=
  ⟨fun s s' hr h => ⟨hA.stable s s' hr h.1, hB.stable s s' hr h.2⟩,
    fun s s' hr hq hx h => ⟨hA.calm s s' hr hq hx h.1, hB.calm s s' hr hq hx h.2⟩⟩

theorem Stable.and {A B : Snapshot cfg fuel → Prop} (hA : Stable R j i A) (hB : Stable R j i B) :
    Stable R j i fun s => A s ∧ B s :=
  fun s s' hr h => ⟨hA s s' hr h.1, hB s s' hr h.2⟩

theorem Stable.const (p : Prop) : @Stable cfg fuel R j i fun _ => p :=
  fun _ _ _ h => h

end Rely

namespace Triple

variable {R : Regime} {j : Job} {i : Nat} {α β : Type} {P P' : α → Snapshot cfg fuel → Prop}
  {E E' : Snapshot cfg fuel → Prop} {s : Snapshot cfg fuel}

theorem pure {a : α} (h : P a s) : Triple R j i (Pure.pure a) P E s := h

theorem mono {p : M α} (h : Triple R j i p P E s) (hP : ∀ a s, P a s → P' a s)
    (hE : ∀ s, E s → E' s) : Triple R j i p P' E' s := by
  refine Safe.weaken h ?_
  intro r s hr
  cases r with
  | ok a => exact hP a s hr
  | error e => exact hE s hr

theorem bind {Q : β → Snapshot cfg fuel → Prop} {p : M α} {f : α → M β}
    (h : Triple R j i p P E s) (hf : ∀ a s, P a s → Triple R j i (f a) Q E s) :
    Triple R j i (p >>= f) Q E s := by
  refine Safe.bind (Safe.weaken h ?_)
  intro r s hr
  cases r with
  | ok a => exact hf a s hr
  | error e => exact hr

/-- What only ever grows is kept along the way. -/
theorem frame {p : M α} {A : Snapshot cfg fuel → Prop} (hA : ∀ s s', Grows R s s' → A s → A s')
    (h : Triple R j i p P E s) (hs : A s) :
    Triple R j i p (fun a s => P a s ∧ A s) (fun s => E s ∧ A s) s := by
  refine Safe.weaken (Safe.frame ?_ ?_ h hs) ?_
  · intro s s' hr
    exact hA s s' (interferes_of_rely hr).toGrows
  · intro s s' hg
    simp only [contract] at hg
    split at hg
    · exact hA s s' hg
    · exact hA s s' hg.toGrows
  · intro r s hr
    cases r with
    | ok a => exact hr
    | error e => exact hr

theorem attempt {Q : Except PyError α → Snapshot cfg fuel → Prop} {p : M α}
    (h : Triple R j i p P E s) (hP : ∀ a s, P a s → Q (.ok a) s)
    (hE : ∀ e s, E s → Q (.error e) s) : Triple R j i p.attempt Q E' s := by
  refine Safe.attempt (Safe.weaken h ?_)
  intro r s hr
  cases r with
  | ok a => exact hP a s hr
  | error e => exact hE e s hr

theorem orRaise {x : Except PyError α} (hP : ∀ a, x = .ok a → P a s) (hE : ∀ e, x = .error e → E s) :
    Triple R j i (orRaise x) P E s := by
  refine Safe.lift ?_
  cases x with
  | ok a => exact hP a rfl
  | error e => exact hE e rfl

/-- A computation that may raise, and what follows its value. -/
theorem orRaise_bind {Q : β → Snapshot cfg fuel → Prop} {x : Except PyError α} {f : α → M β}
    (hP : ∀ a, x = .ok a → Triple R j i (f a) Q E s) (hE : ∀ e, x = .error e → E s) :
    Triple R j i (A2AEvents.orRaise x >>= f) Q E s := by
  cases x with
  | ok a => exact hP a rfl
  | error e => exact hE e rfl

/-- Any call: the assertion is stable, so it still holds when the call is made. -/
theorem call {o : Op} {P : o.Res → Snapshot cfg fuel → Prop} {A : Snapshot cfg fuel → Prop}
    (hst : Stable R j i A) (hA : A s)
    (h : ∀ s c r w', Inv R s → A s → (o.isLocal = false → Admissible R j o c s) →
      World.exec i o c s.state = some (r, w') →
      Inv R (s.next i o r w') ∧ (contract R).guar j i s (s.next i o r w') ∧ P r (s.next i o r w')) :
    Triple R j i (perform o) P E s := by
  intro s₁ hs₁ hinv c r s₂ hadm hex
  have hA₁ : A s₁ := by
    split at hs₁
    · rw [hs₁]; exact hA
    · exact hst s s₁ hs₁ hA
  simp only [Option.map_eq_some_iff] at hex
  obtain ⟨⟨r', w'⟩, hex, heq⟩ := hex
  obtain ⟨rfl, rfl⟩ := by simpa using heq
  exact h s₁ c r' w' hinv hA₁ hadm hex

/-- A call that only looks and takes nothing up. -/
theorem read {o : Op} {P : o.Res → Snapshot cfg fuel → Prop} {A : Snapshot cfg fuel → Prop}
    (ho : o.reads = true) (ht : o.takesUp = false) (hst : Stable R j i A) (hA : A s)
    (h : ∀ s c r, Inv R s → A s → World.exec i o c s.state = some (r, s.state) →
      A (s.next i o r s.state) → P r (s.next i o r s.state)) :
    Triple R j i (perform o) P E s := by
  refine call hst hA ?_
  intro s c r w' hinv hA _ hex
  obtain rfl := World.exec_reads ho hex
  have hsilent : o.silent = true := by cases o <;> simp_all [Op.reads, Op.silent]
  have hq := World.Quiet.refl s.state
  refine ⟨hinv.calm hsilent hq.calm, guar_of_keeps (.calm hsilent hq.calm fun _ => .of_rows_eq rfl (Int.le_refl _)), ?_⟩
  exact h s c r hinv hA hex (hst _ _ (rely_of_idles (.quiet hsilent ht hq)) hA)

/-- Looking keeps what the task knows. -/
theorem look {o : Op} {A : Snapshot cfg fuel → Prop} (ho : o.reads = true) (ht : o.takesUp = false)
    (hst : Stable R j i A) (hA : A s) : Triple R j i (perform o) (fun _ s => A s) E s :=
  read ho ht hst hA fun _ _ _ _ _ _ hA => hA

/-- A quiet call. -/
theorem quiet {o : Op} {P : o.Res → Snapshot cfg fuel → Prop} {A : Snapshot cfg fuel → Prop}
    (ho : o.silent = true) (ht : o.takesUp = false)
    (hquiet : ∀ (s : Snapshot cfg fuel) c r w', Inv R s → A s →
      World.exec i o c s.state = some (r, w') → s.state.Quiet w') (hst : Stable R j i A) (hA : A s)
    (h : ∀ s c r w', Inv R s → A s → World.exec i o c s.state = some (r, w') →
      A (s.next i o r w') → P r (s.next i o r w')) :
    Triple R j i (perform o) P E s := by
  refine call hst hA ?_
  intro s c r w' hinv hA _ hex
  have hq := hquiet s c r w' hinv hA hex
  refine ⟨hinv.calm ho hq.calm, 
    guar_of_keeps (.calm ho hq.calm fun _ => .of_rows_eq hq.rows (Int.le_of_eq hq.clock.symm)), ?_⟩
  exact h s c r w' hinv hA hex (hst _ _ (rely_of_idles (.quiet ho ht hq)) hA)

/-- A calm call. -/
theorem calm {o : Op} {P : o.Res → Snapshot cfg fuel → Prop} {A : Snapshot cfg fuel → Prop}
    (ho : o.silent = true) (ht : o.takesUp = false) (hst : Firm R j i A) (hA : A s)
    (hcalm : ∀ (s : Snapshot cfg fuel) c r w', Inv R s → A s →
      World.exec i o c s.state = some (r, w') →
      s.state.Calm R w' ∧ StaysLapsed s (s.next i o r w'))
    (h : ∀ s c r w', Inv R s → A s → World.exec i o c s.state = some (r, w') →
      A (s.next i o r w') → P r (s.next i o r w')) :
    Triple R j i (perform o) P E s := by
  refine call hst.stable hA ?_
  intro s c r w' hinv hA _ hex
  obtain ⟨hq, hx⟩ := hcalm s c r w' hinv hA hex
  refine ⟨hinv.calm ho hq, guar_of_keeps (.calm ho hq fun _ => hx), ?_⟩
  exact h s c r w' hinv hA hex (hst.calm _ _ (.calm ho ht hq fun _ => hx) hq.queue hx hA)

/-- A local call is made at once: what holds now holds when it is made. -/
theorem callLocal {o : Op} {P : o.Res → Snapshot cfg fuel → Prop} (hl : o.isLocal = true)
    (h : ∀ c r w', Inv R s → World.exec i o c s.state = some (r, w') →
      Inv R (s.next i o r w') ∧ (contract R).guar j i s (s.next i o r w') ∧ P r (s.next i o r w')) :
    Triple R j i (perform o) P E s := by
  intro s₁ hs₁ hinv c r s₂ _ hex
  have hl' : (sem cfg fuel).traced.isLocal o = true := hl
  rw [hl', if_pos rfl] at hs₁
  subst hs₁
  simp only [Option.map_eq_some_iff] at hex
  obtain ⟨⟨r', w'⟩, hex, heq⟩ := hex
  obtain ⟨rfl, rfl⟩ := by simpa using heq
  exact h c r' w' hinv hex

/-- A local call that only looks. -/
theorem readLocal {o : Op} {P : o.Res → Snapshot cfg fuel → Prop} (hl : o.isLocal = true)
    (ho : o.reads = true)
    (h : ∀ c r, Inv R s → World.exec i o c s.state = some (r, s.state) →
      P r (s.next i o r s.state)) : Triple R j i (perform o) P E s := by
  refine callLocal hl ?_
  intro c r w' hinv hex
  obtain rfl := World.exec_reads ho hex
  have hsilent : o.silent = true := by cases o <;> simp_all [Op.reads, Op.silent]
  have hq := World.Quiet.refl s.state
  exact ⟨hinv.calm hsilent hq.calm, guar_of_keeps (.calm hsilent hq.calm fun _ => .of_rows_eq rfl (Int.le_refl _)), h c r hinv hex⟩

end Triple

end A2AEvents
