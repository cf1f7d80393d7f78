import A2AEvents.Spec.ListingCorrect
import A2AEvents.Spec.Provenance
import A2AEvents.Spec.Runs

/-!
# Writing copies back

A store of copies hands a row out by value, and `update` writes all mutable columns of a copy
back. Whatever happened to the row since the copy was read is overwritten. So what a task does
to its copy carries over to the row only if the copy is current when it is written.

A `Watch` says what is followed about the rows: a relation that every edit of the code keeps, and
what it takes for a copy to be current. The calls of a publisher then move the rows along the
relation in every run whose writes are of current copies.

## Key results

- `Watch.exec`: what one call does to the rows
- `Watch.contract_sound`: the jobs of a publisher keep the relation
- `Watch.keeps_of_run`: rows move along the relation between any two states of a run
- `Watch.ended_of_run`: what deletions and renewals leave in the store
-/

namespace A2AEvents

open Async Publisher

variable {cfg : PublisherConfig} {fuel : Nat}

/-! ## Watches -/

/-- What the code does to an object between reading and writing it, apart from renewing its lease. -/
inductive Subscription.Edited (acks : String → String → Prop) (sub : Subscription) : Subscription → Prop where
  | expire (hactive : sub.status = .active) : Edited acks sub (Edit.apply (.status .expired) sub)
  | delete : Edited acks sub (Edit.apply (.status .deleted) sub)
  | ack {topic cursor : String} (hacks : acks topic cursor)
    (hnewer : isNewer cursor (sub.cursors.get? topic) = true) :
    Edited acks sub (Edit.apply (.cursor topic cursor) sub)

/-- The lease of an object is renewed. -/
def Subscription.renewed (sub : Subscription) (t : Time) : Subscription :=
  Edit.apply (.status .active) (Edit.apply (.leaseUntil t) sub)

/-- A row whose mutable columns have been overwritten. -/
def Subscription.overwritten (row sub : Subscription) : Subscription :=
  { row with status := sub.status, leaseUntil := sub.leaseUntil, cursors := sub.cursors }

/-- What is followed about the rows: `rel` says what may become of a subscription, `fits` what all of
    them satisfy, `acks` which cursors are acked, `current` when a copy may be written over a row, and
    `exempt` which jobs need not keep to `rel`. -/
structure Watch where
  rel : Subscription → Subscription → Prop
  fits : Subscription → Prop
  acks : String → String → Prop
  current : Subscription → Handle → Prop
  exempt : Job → Prop
  refl : ∀ a, rel a a
  trans : ∀ {a b c}, rel a b → rel b c → rel a c
  added : ∀ {sub : Subscription}, sub.cursors = ∅ → fits sub
  edited : ∀ {sub sub' : Subscription}, fits sub → sub.Edited acks sub' → fits sub' ∧ rel sub sub'
  renewed : ∀ {sub : Subscription} {id : String} (lease : Int) (t : Time), sub.subscriptionId = id →
    sub.status ≠ .deleted → fits sub →
      fits (sub.renewed t) ∧ (exempt (.renew id lease) ∨ rel sub (sub.renewed t))
  fits_overwritten : ∀ {row sub : Subscription}, fits sub → fits (row.overwritten sub)
  overwritten : ∀ {row : Subscription} {h : Handle}, row.subscriptionId = h.base.subscriptionId → fits row →
    fits h.sub → current row h → rel h.base h.sub → rel row (row.overwritten h.sub)

namespace Watch

variable (W : Watch)

/-- What a task knows about its copy. -/
structure Holds (h : Handle) : Prop where
  id : h.base.subscriptionId = h.sub.subscriptionId
  fits : W.fits h.sub
  rel : W.rel h.base h.sub

/-- What every state of a run satisfies. -/
structure Inv (w : World) : Prop where
  backend : w.subs.backend = .copies
  keyed : w.Keyed
  rows : ∀ id row, w.subs.rows.get? id = some row → W.fits row
  store : w.store.Wf
  events : ∀ topic, ∀ r ∈ w.store.events topic, W.acks r.topic r.cursor

/-- The rows have moved along the relation. -/
def Keeps (w w' : World) : Prop :=
  ∀ id row, w.subs.rows.get? id = some row → ∃ row', w'.subs.rows.get? id = some row' ∧ W.rel row row'

/-- The copy is current: it may be written over its row. -/
def Writes (w : World) (h : Handle) : Prop :=
  ∀ row, w.subs.rows.get? h.sub.subscriptionId = some row → W.current row h

/-- The calls a run may make: copies are written back while they are current, and events are appended
    with cursors that may be acked. -/
def Admits (j : Job) (o : Op) (w : World) : Prop :=
  match o with
  | .update h => W.exempt j ∨ W.Writes w h
  | .append topic type source data subject => ∀ r,
    (w.store.append w.clock ("evt_" ++ uuidHex w.uuids) topic type source data subject).1 = .ok r →
      W.acks r.topic r.cursor
  | _ => True

/-- What programs do with their copies: they write back what they hold, they add subscriptions without
    acked cursors, and what they are answered they can hold and ack. -/
def protocol : Protocol sig where
  asks := fun o => match o with
    | .add sub _ => sub.cursors = ∅
    | .update h => W.Holds h
    | _ => True
  answers := fun o r => match o, r with
    | .add .., h => W.Holds h
    | .get id, found => ∀ h, found = some h → h.sub.subscriptionId = id ∧ W.Holds h
    | .listAll, hs => ∀ h ∈ hs, W.Holds h
    | .update h, h' => W.Holds h' ∧ h'.sub = h.sub
    | .deref h, h' => h' = h
    | .assign h e, h' => h' = ⟨e.apply h.sub, h.base⟩
    | .read .., page => ∀ records next, page = .ok (records, next) → ∀ r ∈ records, W.acks r.topic r.cursor
    | _, _ => True
  jobs := fun j => match j with
    | .dispatchSubscription h _ => W.Holds h
    | .ack _ cursor => ∀ topic, Cursor.topicOf cursor = .ok topic → W.acks topic cursor
    | _ => True

variable {W}

theorem Holds.of_row {sub : Subscription} (h : W.fits sub) : W.Holds ⟨sub, sub⟩ := ⟨rfl, h, W.refl sub⟩

theorem Holds.edited {h : Handle} {sub : Subscription} (hh : W.Holds h) (he : h.sub.Edited W.acks sub) :
    W.Holds ⟨sub, h.base⟩ := by
  obtain ⟨hfits, hrel⟩ := W.edited hh.fits he
  have hid : sub.subscriptionId = h.sub.subscriptionId := by cases he <;> rfl
  exact ⟨hh.id.trans hid.symm, hfits, W.trans hh.rel hrel⟩

theorem Keeps.refl (w : World) : W.Keeps w w := fun _ row h => ⟨row, h, W.refl row⟩

theorem Keeps.trans {w w' w'' : World} (h : W.Keeps w w') (h' : W.Keeps w' w'') : W.Keeps w w'' := by
  intro id row hrow
  obtain ⟨row', hrow', hrel⟩ := h id row hrow
  obtain ⟨row'', hrow'', hrel'⟩ := h' id row' hrow'
  exact ⟨row'', hrow'', W.trans hrel hrel'⟩

theorem Keeps.of_rows_eq {w w' : World} (h : w'.subs.rows = w.subs.rows) : W.Keeps w w' := by
  intro id row hrow
  exact ⟨row, by rw [h]; exact hrow, W.refl row⟩

/-! ## One call -/

/-- A copy overwrites the mutable columns of its row. -/
theorem update_copies {store : SubscriptionStore} (hb : store.backend = .copies) {h : Handle} {row : Subscription}
    (hrow : store.rows.get? h.sub.subscriptionId = some row) : store.update h =
      (⟨h.sub, h.sub⟩, { store with rows := store.rows.set h.sub.subscriptionId (row.overwritten h.sub) }) := by
  simp [SubscriptionStore.update, hb, hrow, Subscription.overwritten]

theorem update_none {store : SubscriptionStore} {h : Handle}
    (hrow : store.rows.get? h.sub.subscriptionId = none) : store.update h = (h, store) := by
  unfold SubscriptionStore.update
  cases store.backend <;> simp [hrow]

/-- The call is none of those that the invariant is about. -/
private def plain : Op → Bool
  | .declareTopic _ | .append .. | .compact _ | .add .. | .update _ | .assign .. => false
  | _ => true

private theorem exec_plain {i : Nat} {o : Op} {c : Choice} {w w' : World} {r : o.Res} (ho : plain o = true)
    (hex : World.exec i o c w = some (r, w')) :
    w'.store = w.store ∧ w'.subs.rows = w.subs.rows ∧ w'.subs.backend = w.subs.backend := by
  cases o with
  | declareTopic | append | compact | add | update | assign => cases ho
  | enqueue item =>
    obtain ⟨-, rfl⟩ := World.enqueue_of_exec hex
    exact ⟨rfl, rfl, rfl⟩
  | acquire id =>
    obtain ⟨-, rfl⟩ := World.acquire_of_exec hex
    exact ⟨rfl, rfl, rfl⟩
  | _ =>
    cases hex
    exact ⟨rfl, rfl, rfl⟩

theorem Inv.of_eq {w w' : World} (h : W.Inv w) (hstore : w'.store = w.store) (hrows : w'.subs.rows = w.subs.rows)
    (hbackend : w'.subs.backend = w.subs.backend) : W.Inv w' where
  backend := hbackend.trans h.backend
  keyed := by
    intro id row hrow
    rw [hrows] at hrow
    exact h.keyed id row hrow
  rows := by
    rw [hrows]
    exact h.rows
  store := by
    rw [hstore]
    exact h.store
  events := by
    rw [hstore]
    exact h.events

/-- A copy that fits is written back. -/
theorem Inv.update {w : World} (h : W.Inv w) {hd : Handle} (hfits : W.fits hd.sub) :
    W.Inv { w with subs := (w.subs.update hd).2 } := by
  cases hrow : w.subs.rows.get? hd.sub.subscriptionId with
  | none =>
    rw [update_none hrow]
    exact h
  | some row =>
    rw [update_copies h.backend hrow]
    have hid := h.keyed _ row hrow
    constructor
    · exact h.backend
    · intro id r hr
      rw [Dict.get?_set] at hr
      split at hr
      · rename_i hat
        cases hr
        exact hid.trans hat.symm
      · exact h.keyed id r hr
    · intro id r hr
      rw [Dict.get?_set] at hr
      split at hr
      · cases hr
        exact W.fits_overwritten hfits
      · exact h.rows id r hr
    · exact h.store
    · exact h.events

/-- A current copy moves its row along the relation. -/
theorem Keeps.update {w : World} (h : W.Inv w) {hd : Handle} (hh : W.Holds hd) (hw : W.Writes w hd) :
    W.Keeps w { w with subs := (w.subs.update hd).2 } := by
  cases hrow : w.subs.rows.get? hd.sub.subscriptionId with
  | none =>
    rw [update_none hrow]
    exact .refl w
  | some row =>
    rw [update_copies h.backend hrow]
    intro id r hr
    by_cases hat : id = hd.sub.subscriptionId
    · subst hat
      rw [hrow] at hr
      cases hr
      have hid : row.subscriptionId = hd.base.subscriptionId := (h.keyed _ row hrow).trans hh.id.symm
      exact ⟨_, by rw [Dict.get?_set, if_pos rfl], W.overwritten hid (h.rows _ row hrow) hh.fits (hw row hrow) hh.rel⟩
    · exact ⟨r, by rw [Dict.get?_set, if_neg hat]; exact hr, W.refl r⟩

/-- A new subscription comes without acked cursors. -/
theorem Inv.add {w : World} (h : W.Inv w) {sub : Subscription} (offsets : Dict String Int)
    (hsub : sub.cursors = ∅) : W.Inv { w with subs := w.subs.add sub offsets } := by
  constructor
  · exact h.backend
  · intro id r hr
    have hget : (w.subs.rows.set sub.subscriptionId sub).get? id = some r := hr
    rw [Dict.get?_set] at hget
    split at hget
    · rename_i hat
      cases hget
      exact hat.symm
    · exact h.keyed id r hget
  · intro id r hr
    have hget : (w.subs.rows.set sub.subscriptionId sub).get? id = some r := hr
    rw [Dict.get?_set] at hget
    split at hget
    · cases hget
      exact W.added hsub
    · exact h.rows id r hget
  · exact h.store
  · exact h.events

theorem Keeps.add {w : World} {sub : Subscription} (offsets : Dict String Int)
    (hnone : w.subs.rows.get? sub.subscriptionId = none) :
    W.Keeps w { w with subs := w.subs.add sub offsets } := by
  intro id r hr
  refine ⟨r, ?_, W.refl r⟩
  show (w.subs.rows.set sub.subscriptionId sub).get? id = some r
  rw [Dict.get?_set, if_neg]
  · exact hr
  · rintro rfl
    rw [hnone] at hr
    cases hr

/-- Copies are assigned to without touching the store. -/
theorem assign_copies {store : SubscriptionStore} (hb : store.backend = .copies) (h : Handle) (e : Edit) :
    store.assign h e = (⟨e.apply h.sub, h.base⟩, store) := by
  simp [SubscriptionStore.assign, hb]

theorem deref_copies {store : SubscriptionStore} (hb : store.backend = .copies) (h : Handle) :
    store.deref h = h := by
  simp [SubscriptionStore.deref, hb]

/-- What a program may rely on when a call has been answered. -/
theorem answers {i : Nat} {o : Op} {c : Choice} {w w' : World} {r : o.Res} (h : W.Inv w) (hasks : W.protocol.asks o)
    (hex : World.exec i o c w = some (r, w')) : W.protocol.answers o r := by
  cases o with
  | add sub offsets =>
    obtain ⟨-, rfl, rfl⟩ := World.add_of_exec hex
    exact .of_row (W.added hasks)
  | get id =>
    cases hex
    intro hd hfound
    obtain ⟨row, hrow, rfl⟩ := Option.map_eq_some_iff.mp hfound
    exact ⟨h.keyed id row hrow, .of_row (h.rows id row hrow)⟩
  | listAll =>
    cases hex
    intro hd hmem
    obtain ⟨row, hrow, rfl⟩ := List.mem_map.mp hmem
    obtain ⟨id, hid⟩ : ∃ id, w.subs.rows.get? id = some row := by
      rw [← Dict.mem_values_iff]
      simpa [h.backend] using hrow
    exact .of_row (h.rows id row hid)
  | update hd =>
    cases hex
    show W.Holds (w.subs.update hd).1 ∧ (w.subs.update hd).1.sub = hd.sub
    have hh : W.Holds hd := hasks
    cases hrow : w.subs.rows.get? hd.sub.subscriptionId with
    | none =>
      rw [update_none hrow]
      exact ⟨hh, rfl⟩
    | some row =>
      rw [update_copies h.backend hrow]
      exact ⟨.of_row hh.fits, rfl⟩
  | deref hd =>
    cases hex
    exact deref_copies h.backend hd
  | assign hd e =>
    cases hex
    show (w.subs.assign hd e).1 = _
    rw [assign_copies h.backend]
  | read topic from_ to_ limit =>
    cases hex
    intro records next hpage record hrecord
    exact h.events topic record (EventStore.mem_events_of_read h.store hpage hrecord)
  | _ => trivial

/-- One call: the invariant is kept, and rows move along the relation unless the job is exempt. -/
theorem exec {j : Job} {i : Nat} {o : Op} {c : Choice} {w w' : World} {r : o.Res} (h : W.Inv w) (hasks : W.protocol.asks o)
    (hadm : W.Admits j o w) (hex : World.exec i o c w = some (r, w')) :
    W.Inv w' ∧ (W.exempt j ∨ W.Keeps w w') := by
  cases o with
  | declareTopic topic =>
    cases hex
    refine ⟨⟨h.backend, h.keyed, h.rows, h.store.declareTopic topic, fun name r hr => ?_⟩, .inr (.of_rows_eq rfl)⟩
    rw [EventStore.events_declareTopic] at hr
    exact h.events name r hr
  | append topic type source data subject =>
    cases hex
    refine ⟨⟨h.backend, h.keyed, h.rows, h.store.append _ _ _ _ _ _ _, fun name r hr => ?_⟩, .inr (.of_rows_eq rfl)⟩
    rcases EventStore.mem_events_append hr with hr | ⟨-, hok⟩
    · exact h.events name r hr
    · exact hadm r hok
  | compact topic =>
    cases hex
    refine ⟨⟨h.backend, h.keyed, h.rows, h.store.compact _ _, fun name r hr => ?_⟩, .inr (.of_rows_eq rfl)⟩
    exact h.events name r (EventStore.mem_events_compact hr)
  | add sub offsets =>
    obtain ⟨hnone, rfl, rfl⟩ := World.add_of_exec hex
    exact ⟨h.add offsets hasks, .inr (.add offsets hnone)⟩
  | update hd =>
    cases hex
    have hh : W.Holds hd := hasks
    exact ⟨h.update hh.fits, hadm.imp_right fun hw => .update h hh hw⟩
  | assign hd e =>
    cases hex
    show W.Inv { w with subs := (w.subs.assign hd e).2 } ∧ (W.exempt j ∨ W.Keeps w { w with subs := (w.subs.assign hd e).2 })
    rw [assign_copies h.backend]
    exact ⟨h, .inr (.refl w)⟩
  | _ =>
    obtain ⟨hstore, hrows, hbackend⟩ := exec_plain rfl hex
    exact ⟨h.of_eq hstore hrows hbackend, .inr (.of_rows_eq hrows)⟩

/-! ## Programs -/

/-- The program upholds the protocol of the watch and returns values that satisfy `Q`. -/
abbrev Upholds (W : Watch) {α : Type} (p : M α) (Q : α → Prop := fun _ => True) : Prop := p.Upholds W.protocol Q

/-- What a job that does not renew holds was edited along the relation. -/
theorem Holds.of_held {j : Job} (hj : W.protocol.jobs j) (hkeeps : ∀ id lease, j ≠ .renew id lease) {h : Handle}
    (hh : Answers.Held W.protocol.answers j h) : W.Holds h := by
  obtain ⟨h₀, hhanded, hderived⟩ := hh
  have hstart : W.Holds h₀ := by
    cases hhanded with
    | given hdispatch =>
      subst hdispatch
      exact hj
    | added ha => exact ha
    | found ha => exact (ha h₀ rfl).2
    | listed ha hmem => exact ha h₀ hmem
  clear hhanded
  induction hderived with
  | refl => exact hstart
  | deref _ ha ih =>
    cases (ha : _ = _)
    exact ih
  | @assign h₁ h₂ e _ he ha ih =>
    cases (ha : h₂ = _)
    cases he with
    | expire hactive => exact ih.edited (.expire hactive)
    | delete _ => exact ih.edited .delete
    | lease hrenew _ => exact absurd hrenew (hkeeps _ _)
    | revive hrenew => exact absurd hrenew (hkeeps _ _)
    | ack hacks hnewer =>
      refine ih.edited (.ack ?_ hnewer)
      cases hacks with
      | given hack htopic =>
        subst hack
        exact hj _ htopic
      | @delivered name record hread htopic hcursor =>
        obtain ⟨from_, to_, limit, records, next, ha, hmem⟩ := hread
        rw [← htopic, ← hcursor]
        exact ha records next rfl record hmem
  | update _ ha _ => exact ha.1

/-- Every job that does not renew upholds the protocol. -/
theorem code_upholds {j : Job} (hj : W.protocol.jobs j) (hkeeps : ∀ id lease, j ≠ .renew id lease) :
    W.Upholds (code cfg fuel j) := by
  refine (Prog.Upholds.mono ?_ ?_ ?_ (code_sourced cfg fuel j W.protocol.answers)).weaken fun _ _ => trivial
  · intro o ho
    cases o with
    | add sub offsets => exact ho.1
    | update h => exact .of_held hj hkeeps ho
    | _ => trivial
  · exact id
  · intro j' hj'
    cases j' with
    | dispatchSubscription h topics => exact .of_held hj hkeeps hj'
    | ack id cursor => exact hj'.elim
    | _ => trivial

/-- Expiring a lease keeps the id and revives nothing. -/
theorem expireAndPersist_upholds {h : Handle} (hh : W.Holds h) : W.Upholds (expireAndPersist h) fun h' =>
    W.Holds h' ∧ h'.sub.subscriptionId = h.sub.subscriptionId ∧ (h.sub.status ≠ .deleted → h'.sub.status ≠ .deleted) := by
  have hdue : W.Upholds (expireIfDue h) fun r => W.Holds r.2 ∧ r.2.sub.subscriptionId = h.sub.subscriptionId ∧
      (h.sub.status ≠ .deleted → r.2.sub.status ≠ .deleted) := by
    refine .call_bind trivial fun h' heq => .call_bind trivial fun now _ => ?_
    cases (heq : h' = h)
    split
    · rename_i hlapsed
      refine .call_bind trivial fun h' heq => .pure ?_
      cases (heq : h' = _)
      exact ⟨hh.edited (.expire hlapsed.1), rfl, fun _ hdeleted => (by cases hdeleted)⟩
    · exact .pure ⟨hh, rfl, fun h => h⟩
  refine .bind hdue fun r hr => ?_
  obtain ⟨changed, h'⟩ := r
  obtain ⟨hh', hid, hstatus⟩ := hr
  cases changed with
  | true =>
    refine .call hh' fun h'' hr => ?_
    obtain ⟨hh'', hsub⟩ : W.Holds h'' ∧ h''.sub = h'.sub := hr
    rw [hsub]
    exact ⟨hh'', hid, hstatus⟩
  | false => exact .pure ⟨hh', hid, hstatus⟩

/-! ## The contract -/

/-- What deletions and renewals have left in the store when they return. -/
def Left (j : Job) (r : Except PyError Val) (w : World) : Prop :=
  match j, r with
  | .delete id, .ok (.deleted (some _)) => ∃ row, w.subs.rows.get? id = some row ∧ row.status = .deleted
  | .renew id _, .ok (.subscription sub) =>
    ∃ row, w.subs.rows.get? id = some row ∧ row.leaseUntil = sub.leaseUntil
  | _, _ => True

variable (W) in
/-- The jobs of a publisher over a store of copies: rows stay, and jobs that are not exempt move them along
    the relation. -/
def contract (cfg : PublisherConfig) (fuel : Nat) : Contract (sem cfg fuel).traced where
  inv s := W.Inv s.state
  rely _ _ s s' := ∀ id, s.state.Has id → s'.state.Has id
  guar j _ s s' := (∀ id, s.state.Has id → s'.state.Has id) ∧ (W.exempt j ∨ W.Keeps s.state s'.state)
  adm j _ o _ s := W.Admits j o s.state
  pre j _ := W.protocol.jobs j
  peer _ _ := True
  post j r s := Left j r s.state

section Tails

variable {j : Job} {i : Nat} {s : Snapshot cfg fuel}

/-- No call takes a row away. -/
theorem has_exec {o : Op} {c : Choice} {w w' : World} {r : o.Res} (h : W.Inv w)
    (hex : World.exec i o c w = some (r, w')) : ∀ id, w.Has id → w'.Has id :=
  fun _ hid => (rowsGrow_exec h.keyed hex).has hid

/-- Local calls are always admitted. -/
theorem admits_of_nonlocal {o : Op} {w : World} (h : o.isLocal = false → W.Admits j o w) : W.Admits j o w := by
  cases o with
  | update | append => exact h rfl
  | _ => trivial

/-- One call, at whatever world it is made: all rows found so far are there. -/
theorem safe_call {o : Op} {P : o.Res → World → Prop}
    (h : ∀ {w : World} {c : Choice} {r : o.Res} {w' : World}, (∀ id, s.state.Has id → w.Has id) → W.Inv w →
      W.Admits j o w → World.exec i o c w = some (r, w') → W.Inv w' ∧ (W.exempt j ∨ W.Keeps w w') ∧ P r w') :
    Safe (W.contract cfg fuel) j i (perform o) (fun r s' => ∀ a, r = .ok a → P a s'.state) s := by
  intro s₁ hrely hinv c r s₂ hadm hex
  obtain ⟨p, hcall, heq⟩ := Option.map_eq_some_iff.mp hex
  cases heq
  have hhas : ∀ id, s.state.Has id → s₁.state.Has id := by
    split at hrely
    · rw [hrely]
      exact fun _ hid => hid
    · exact hrely
  obtain ⟨hinv', hkeeps, hp⟩ := h hhas hinv (admits_of_nonlocal hadm) hcall
  refine ⟨hinv', ⟨has_exec hinv hcall, hkeeps⟩, ?_⟩
  intro a ha
  cases ha
  exact hp

/-- A program that upholds the protocol is safe, and the rows that it found are there when it ends. -/
theorem safe_of_upholds {α : Type} {p : M α} {Q : α → Prop} (hp : W.Upholds p Q) (s : Snapshot cfg fuel) :
    Safe (W.contract cfg fuel) j i p (fun r s' => (∀ a, r = .ok a → Q a) ∧
      ∀ id, s.state.Has id → s'.state.Has id) s := by
  have hsafe : Safe (W.contract cfg fuel) j i p (fun r _ => ∀ a, r = .ok a → Q a) s := by
    refine Prog.Upholds.safe (C := W.contract cfg fuel) ?_ (fun _ hj => ⟨hj, trivial⟩) hp s
    intro o c s r s' hinv hasks hadm hex
    obtain ⟨p, hcall, heq⟩ := Option.map_eq_some_iff.mp hex
    cases heq
    obtain ⟨hinv', hkeeps⟩ := exec hinv hasks (admits_of_nonlocal hadm) hcall
    exact ⟨hinv', ⟨has_exec hinv hcall, hkeeps⟩, answers hinv hasks hcall⟩
  refine hsafe.frame (A := fun s' : Snapshot cfg fuel => ∀ id, s.state.Has id → s'.state.Has id) ?_ ?_ fun _ h => h
  · exact fun _ _ hrely h id hid => hrely id (h id hid)
  · exact fun _ _ hguar h id hid => hguar.1 id (h id hid)

/-- What `get` finds has a row. -/
theorem safe_get (id : String) : Safe (W.contract cfg fuel) j i (perform (.get id)) (fun r s' => ∀ found, r = .ok found →
      ∀ h, found = some h → h.sub.subscriptionId = id ∧ W.Holds h ∧ s'.state.Has id) s := by
  refine safe_call (o := .get id) (P := fun found w' => ∀ h, found = some h → h.sub.subscriptionId = id ∧ W.Holds h ∧ w'.Has id) ?_
  intro w c r w' _ hinv hadm hex
  obtain ⟨hinv', hkeeps⟩ := exec (o := .get id) hinv trivial hadm hex
  refine ⟨hinv', hkeeps, fun h hfound => ?_⟩
  obtain ⟨hid, hh⟩ := answers (o := .get id) hinv trivial hex h hfound
  cases hex
  obtain ⟨row, hrow, -⟩ := Option.map_eq_some_iff.mp hfound
  exact ⟨hid, hh, row, hrow⟩

/-- The last write of a deletion or a renewal. -/
theorem safe_update {h : Handle} (hfits : W.fits h.sub) (hh : W.exempt j ∨ W.Holds h)
    (hhas : s.state.Has h.sub.subscriptionId) :
    Safe (W.contract cfg fuel) j i (perform (.update h)) (fun r s' => ∀ h', r = .ok h' → h'.sub = h.sub ∧
      ∃ row : Subscription, s'.state.subs.rows.get? h.sub.subscriptionId = some (row.overwritten h.sub)) s := by
  refine safe_call (o := .update h) (P := fun h' w' => h'.sub = h.sub ∧ ∃ row : Subscription,
    w'.subs.rows.get? h.sub.subscriptionId = some (row.overwritten h.sub)) ?_
  intro w c r w' hstay hinv hadm hex
  cases hex
  refine ⟨hinv.update hfits, ?_, ?_⟩
  · rcases hh with hexempt | hh
    · exact .inl hexempt
    · exact hadm.imp_right fun hw => .update hinv hh hw
  · obtain ⟨row, hrow⟩ := hstay _ hhas
    show (w.subs.update h).1.sub = h.sub ∧ ∃ row : Subscription,
      (w.subs.update h).2.rows.get? h.sub.subscriptionId = some (row.overwritten h.sub)
    rw [update_copies hinv.backend hrow]
    exact ⟨rfl, row, by rw [Dict.get?_set, if_pos rfl]⟩

/-- What follows a program that upholds the protocol. -/
theorem safe_upheld_then {α β : Type} {p : M α} {f : α → M β} {P : α → Prop} {Q : β → Snapshot cfg fuel → Prop}
    (hp : W.Upholds p P) (hf : ∀ a s', P a → (∀ id, s.state.Has id → s'.state.Has id) →
      Safe (W.contract cfg fuel) j i (f a) (fun r s'' => ∀ b, r = .ok b → Q b s'') s') :
    Safe (W.contract cfg fuel) j i (p >>= f) (fun r s' => ∀ b, r = .ok b → Q b s') s :=
  Yields.bind (P := fun a (s' : Snapshot cfg fuel) => P a ∧ ∀ id, s.state.Has id → s'.state.Has id)
    ((safe_of_upholds hp s).weaken fun _ _ hr a ha => ⟨hr.1 a ha, hr.2⟩) fun a s' h => hf a s' h.1 h.2

/-- A deletion that found its subscription leaves it deleted. -/
theorem delete_safe (id : String) : Safe (W.contract cfg fuel) j i (delete id) (fun r s' => ∀ sub, r = .ok (some sub) →
    ∃ row, s'.state.subs.rows.get? id = some row ∧ row.status = .deleted) s := by
  suffices h : Safe (W.contract cfg fuel) j i (delete id) (fun r s' => ∀ found, r = .ok found → found.isSome = true →
      ∃ row, s'.state.subs.rows.get? id = some row ∧ row.status = .deleted) s by
    exact h.weaken fun r s' hr sub hok => hr _ hok rfl
  refine Yields.bind (safe_get id) fun found s' hfound => ?_
  cases found with
  | none =>
    intro found hok
    cases hok
    exact fun hsome => (by cases hsome)
  | some h =>
    obtain ⟨rfl, hh, hhas⟩ := hfound h rfl
    have hassign : W.Upholds (perform (.assign h (.status .deleted))) fun h' =>
        h' = ⟨Edit.apply (.status .deleted) h.sub, h.base⟩ :=
      .call trivial fun _ heq => heq
    refine safe_upheld_then hassign fun h' s'' heq hstay => ?_
    subst heq
    have hh' := hh.edited .delete
    refine Yields.bind (safe_update hh'.fits (.inr hh') (hstay _ hhas)) fun h'' s₃ hlast _ _ _ => ?_
    obtain ⟨-, row, hrow⟩ := hlast
    exact ⟨_, hrow, rfl⟩

theorem getSubscription_safe (id : String) : Safe (W.contract cfg fuel) j i (getSubscription id) (fun r s' => ∀ h, r = .ok h →
    h.sub.subscriptionId = id ∧ h.sub.status ≠ .deleted ∧ W.Holds h ∧ s'.state.Has id) s := by
  refine Yields.bind (safe_get id) fun found s' hfound => ?_
  cases found with
  | none => exact fun _ hok => (by cases hok)
  | some h =>
    obtain ⟨rfl, hh, hhas⟩ := hfound h rfl
    show Safe (W.contract cfg fuel) j i (if h.sub.status = .deleted then _ else _) _ s'
    split
    · exact fun _ hok => (by cases hok)
    · rename_i hstatus
      refine (safe_of_upholds (expireAndPersist_upholds hh) s').weaken fun r s'' hr h' hok => ?_
      obtain ⟨hh', hid, hrevives⟩ := hr.1 h' hok
      exact ⟨hid, hrevives hstatus, hh', hr.2 _ hhas⟩

/-- A renewal that returns leaves the lease that it returns in the store. -/
theorem renew_safe (id : String) (lease : Int) : Safe (W.contract cfg fuel) (.renew id lease) i (renew cfg id lease)
    (fun r s' => ∀ sub, r = .ok sub → ∃ row, s'.state.subs.rows.get? id = some row ∧ row.leaseUntil = sub.leaseUntil) s := by
  refine safe_upheld_then (P := fun _ => True) (.lift fun _ _ => trivial) fun _ s' _ _ =>
    Yields.bind (getSubscription_safe id) fun h s' hfound => ?_
  obtain ⟨hid, hstatus, hh, hhas⟩ := hfound
  -- what lies between finding the subscription and writing it back is local
  have hassign : W.Upholds (do
      let now ← perform .now
      let h ← perform (.assign h (.leaseUntil (now + seconds lease)))
      perform (.assign h (.status .active))) fun h' => ∃ t, h' = ⟨h.sub.renewed t, h.base⟩ := by
    refine .call_bind trivial fun now _ => .call_bind trivial fun h' heq => .call trivial fun h'' heq' => ?_
    cases (heq : h' = _)
    exact ⟨_, heq'⟩
  show Safe (W.contract cfg fuel) (.renew id lease) i ((do
      let now ← perform .now
      let h ← perform (.assign h (.leaseUntil (now + seconds lease)))
      perform (.assign h (.status .active))) >>= fun h' => perform (.update h') >>= fun h'' => pure h''.sub) _ s'
  refine safe_upheld_then hassign fun h' s'' heq hstay => ?_
  obtain ⟨t, rfl⟩ := heq
  obtain ⟨hfits, hrenews⟩ := W.renewed lease t hid hstatus hh.fits
  have hid' : (h.sub.renewed t).subscriptionId = id := hid
  have hholds : W.exempt (.renew id lease) ∨ W.Holds ⟨h.sub.renewed t, h.base⟩ :=
    hrenews.imp_right fun hrel => ⟨hh.id, hfits, W.trans hh.rel hrel⟩
  have hhas' : s''.state.Has (h.sub.renewed t).subscriptionId := by
    rw [hid']
    exact hstay _ hhas
  refine Yields.bind (safe_update hfits hholds hhas') fun h'' s₃ hlast sub hok => ?_
  obtain ⟨hsub, row, hrow⟩ := hlast
  rw [hid'] at hrow
  cases hok
  exact ⟨_, hrow, by rw [hsub]; rfl⟩

end Tails

/-- Every job keeps the contract. -/
theorem code_safe {j : Job} {i : Nat} (hj : W.protocol.jobs j) (s : Snapshot cfg fuel) :
    Safe (W.contract cfg fuel) j i (code cfg fuel j) ((W.contract cfg fuel).post j) s := by
  have hupheld : W.Upholds (code cfg fuel j) → (∀ r w, Left j r w) →
      Safe (W.contract cfg fuel) j i (code cfg fuel j) ((W.contract cfg fuel).post j) s := by
    exact fun hp hleft => (safe_of_upholds hp s).weaken fun r s' _ => hleft r s'.state
  cases j with
  | delete id =>
    suffices h : Safe (W.contract cfg fuel) (.delete id) i (code cfg fuel (.delete id)) (fun r s' => ∀ v, r = .ok v →
        Left (.delete id) (.ok v) s'.state) s by
      refine h.weaken fun r s' hr => ?_
      cases r with
      | error e => trivial
      | ok v => exact hr v rfl
    have hdelete : Safe (W.contract cfg fuel) (.delete id) i (delete id) (fun r s' => ∀ found, r = .ok found →
        ∀ sub, found = some sub → ∃ row, s'.state.subs.rows.get? id = some row ∧ row.status = .deleted) s := by
      refine (delete_safe id).weaken fun r s' hr found hok sub hsub => ?_
      subst hsub
      exact hr sub hok
    refine Yields.bind hdelete fun found s' hrow v hok => ?_
    cases hok
    cases found with
    | none => trivial
    | some sub => exact hrow sub rfl
  | renew id lease =>
    suffices h : Safe (W.contract cfg fuel) (.renew id lease) i (code cfg fuel (.renew id lease)) (fun r s' => ∀ v, r = .ok v →
        Left (.renew id lease) (.ok v) s'.state) s by
      refine h.weaken fun r s' hr => ?_
      cases r with
      | error e => trivial
      | ok v => exact hr v rfl
    refine Yields.bind (renew_safe id lease) fun sub s' hrow v hok => ?_
    cases hok
    exact hrow
  | _ =>
    refine hupheld (code_upholds hj ?_) fun _ _ => trivial
    rintro id lease ⟨⟩

/-- The jobs of a publisher keep the contract of every watch. -/
theorem contract_sound (W : Watch) : (W.contract cfg fuel).Sound where
  rely_refl _ _ _ := fun _ h => h
  rely_trans := fun hab hbc id h => hbc id (hab id h)
  env_rely := by
    intro e s s' he hinv
    obtain ⟨w, hw, rfl⟩ := Option.map_eq_some_iff.mp he
    obtain ⟨clock, authorizer, -, rfl⟩ := World.env_cases hw
    exact ⟨⟨hinv.backend, hinv.keyed, hinv.rows, hinv.store, hinv.events⟩, fun _ _ _ h => h⟩
  peer_rely := fun _ _ _ _ hguar => hguar.1
  pre_stable := fun hpre _ _ => hpre
  code_safe := fun _ _ s _ hpre => code_safe hpre s

/-! ## Runs -/

section Run

variable {ok : Run.Config cfg fuel → Action (sem cfg fuel).traced → Prop} {clock : Time}
  {authorizer : Option AllowlistAuthorizer} {a b : Run.Config cfg fuel}

/-- A side condition on runs that is enough for the watch. -/
structure Suffices (W : Watch) (ok : Run.Config cfg fuel → Action (sem cfg fuel).traced → Prop) : Prop where
  start : ∀ {c j}, ok c (.start j) → W.protocol.jobs j
  task : ∀ {c i ch t o k}, ok c (.task i ch) → W.Inv c.state.state → c.tasks[i]? = some t → t.prog = .op o k →
    W.Admits t.job o c.state.state

theorem Suffices.admissible (h : W.Suffices ok) (c : Run.Config cfg fuel) (act : Action (sem cfg fuel).traced)
    (hok : ok c act) (hgood : (W.contract cfg fuel).Good c) : (W.contract cfg fuel).Admissible c act := by
  cases act with
  | start j => exact h.start hok
  | task i ch => exact ⟨fun _ _ _ _ _ _ _ => trivial, fun t ht o k hp _ => h.task hok hgood.1 ht hp⟩
  | env e => trivial
  | crash => exact ⟨hgood.1.backend, hgood.1.keyed, hgood.1.rows, hgood.1.store, hgood.1.events⟩

theorem good_initial : (W.contract cfg fuel).Good (initial cfg fuel .copies clock authorizer) :=
  ⟨⟨rfl, (fun _ _ h => (by cases h)), (fun _ _ h => (by cases h)), (fun _ _ h => (by cases h)),
    fun _ _ h => (by cases h)⟩, fun _ _ h => (by cases h)⟩

/-- Every configuration of a run is good. -/
theorem good_of_run (h : W.Suffices ok) (ha : Config.Run ok (initial cfg fuel .copies clock authorizer) a) :
    (W.contract cfg fuel).Good a :=
  (contract_sound W).good_run h.admissible good_initial ha

/-- Rows move along the relation while no exempt job moves. -/
theorem keeps_of_run (h : W.Suffices ok)
    (hexempt : ∀ {c i ch t}, ok c (.task i ch) → c.tasks[i]? = some t → ¬ W.exempt t.job)
    (hgood : (W.contract cfg fuel).Good a) (hb : Config.Run ok a b) : W.Keeps a.state.state b.state.state := by
  refine (contract_sound W).run_rel (R := fun s s' : Snapshot cfg fuel => W.Keeps s.state s'.state) h.admissible
    (fun s => .refl s.state) (fun h h' => h.trans h') ?_ ?_ (fun s _ => .of_rows_eq rfl) hgood hb
  · exact fun hok ht hmoves => hmoves.guar.2.resolve_left (hexempt hok ht)
  · intro e s s' _ he
    obtain ⟨w, hw, rfl⟩ := Option.map_eq_some_iff.mp he
    obtain ⟨clock, authorizer, -, rfl⟩ := World.env_cases hw
    exact .of_rows_eq rfl

/-- What the call that ends with a step leaves in the store. -/
theorem left_of_step (h : W.Suffices ok) (hgood : (W.contract cfg fuel).Good a) {i : Nat} {ch : Choice} {j : Job}
    {v : Val} (hok : ok a (.task i ch)) (hstep : a.step (.task i ch) = some b)
    (hends : b.tasks[i]? = some ⟨j, .pure v⟩) : Left j (.ok v) b.state.state := by
  obtain ⟨t, ht, hadv⟩ := (contract_sound W).good_stepTask hgood (h.admissible a _ hok hgood) hstep
  obtain ⟨hjob, hpost⟩ := hadv.ends _ hends
  simp only at hjob
  subst hjob
  exact hpost _ rfl

/-- What a call that has returned left in the store when it did. -/
theorem left_of_run (h : W.Suffices ok) (hrun : Config.Run ok (initial cfg fuel .copies clock authorizer) b) {i : Nat}
    {j : Job} {v : Val} (hcode : (code cfg fuel j).finished = false) (hends : b.tasks[i]? = some ⟨j, .pure v⟩) :
    ∃ c, Config.Run ok (initial cfg fuel .copies clock authorizer) c ∧ Left j (.ok v) c.state.state ∧
      Config.Run ok c b :=
  (contract_sound W).ended h.admissible good_initial rfl hrun hcode hends rfl

end Run

end Watch

end A2AEvents
