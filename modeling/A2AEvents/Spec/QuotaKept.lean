import Mathlib.Data.List.Perm.Subperm
import A2AEvents.Spec.ListingCorrect
import A2AEvents.Spec.NeutralPrograms

/-!
# Subscriptions of one subscriber

A publisher may be configured with a maximum number of subscriptions for each subscriber. A `subscribe`
lists the store and counts, and adds its row some calls later, so the bound depends on what comes in
between. It holds in every run in which nothing does: the subscriptions that the adding call finds were
there when it counted, and no write takes a deletion back.

## Key results

- `World.Rewrites.exec`: what a call does to rows that are there
- `Quota.add_ends`: a task that has counted leaves nobody with too many subscriptions
- `Quota.contract_sound`: the jobs of a publisher keep within the quota
- `quota_kept`: no reachable state has more subscriptions of a subscriber than are allowed
-/

namespace A2AEvents

open Async Publisher

/-! ## Rows that stay deleted -/

namespace World

variable {w w' w'' : World}

/-- Rows stay, and deleted ones stay deleted. -/
def Buries (w w' : World) : Prop :=
  ∀ id row, w.subs.rows.get? id = some row → ∃ row', w'.subs.rows.get? id = some row' ∧ row'.Alike row ∧
    (row.status = .deleted → row'.status = .deleted)

theorem Buries.refl (w : World) : w.Buries w := fun _ row h => ⟨row, h, .refl row, fun hd => hd⟩

theorem Buries.trans (h : w.Buries w') (h' : w'.Buries w'') : w.Buries w'' := by
  intro id row hrow
  obtain ⟨row', hrow', halike, hdel⟩ := h id row hrow
  obtain ⟨row'', hrow'', halike', hdel'⟩ := h' id row' hrow'
  exact ⟨row'', hrow'', halike'.trans halike, fun hd => hdel' (hdel hd)⟩

/-- The subscriptions of a subscriber that are not deleted. -/
def kept (w : World) (url : String) : List Subscription :=
  w.subs.rows.values.filter fun row => row.subscriberCardUrl = url ∧ row.status ≠ .deleted

/-- The subscription is one of them. -/
def Counts (w : World) (url id : String) : Prop :=
  ∃ row, w.subs.rows.get? id = some row ∧ row.subscriberCardUrl = url ∧ row.status ≠ .deleted

theorem Keyed.mem_kept_ids (hk : w.Keyed) {url id : String} :
    id ∈ (w.kept url).map Subscription.subscriptionId ↔ w.Counts url id := by
  simp only [kept, List.mem_map, List.mem_filter, Dict.mem_values_iff, decide_eq_true_eq]
  constructor
  · rintro ⟨row, ⟨⟨key, hrow⟩, hurl, hstatus⟩, rfl⟩
    exact ⟨row, by rw [hk key row hrow]; exact hrow, hurl, hstatus⟩
  · rintro ⟨row, hrow, hurl, hstatus⟩
    exact ⟨row, ⟨⟨id, hrow⟩, hurl, hstatus⟩, hk id row hrow⟩

/-- A list that has the ids of all of them is as long at least. -/
theorem Keyed.kept_length_le (hk : w.Keyed) {url : String} (ids : List String) (h : ∀ id, w.Counts url id → id ∈ ids) :
    (w.kept url).length ≤ ids.length := by
  have hnodup : ((w.kept url).map Subscription.subscriptionId).Nodup := by
    have hkeys : (w.subs.rows.values.map Subscription.subscriptionId).Nodup := hk.values_ids ▸ w.subs.rows.nodup
    exact (List.filter_sublist.map _).nodup hkeys
  have hsub : (w.kept url).map Subscription.subscriptionId ⊆ ids := fun id hid => h id (hk.mem_kept_ids.mp hid)
  calc (w.kept url).length = ((w.kept url).map Subscription.subscriptionId).length := (List.length_map _).symm
    _ ≤ ids.length := (hnodup.subperm hsub).length_le

/-- Nobody comes to have more of them where no row is added. -/
theorem Buries.kept_length_le (h : w.Buries w') (hk : w.Keyed) (hk' : w'.Keyed) (hnew : ∀ id, w'.Has id → w.Has id)
    (url : String) : (w'.kept url).length ≤ (w.kept url).length := by
  refine (hk'.kept_length_le _ fun id hid => ?_).trans (List.length_map Subscription.subscriptionId).le
  obtain ⟨row', hrow', hurl, hstatus⟩ := hid
  obtain ⟨row, hrow⟩ := hnew id ⟨row', hrow'⟩
  obtain ⟨row'', hrow'', halike, hdel⟩ := h id row hrow
  rw [hrow'] at hrow''
  cases hrow''
  exact hk.mem_kept_ids.mpr ⟨row, hrow, halike.subscriberCardUrl.symm.trans hurl, fun hd => hstatus (hdel hd)⟩

/-- Writing the object takes a deletion back. Over live objects the write itself changes nothing; but a
    renewal that has written an expired lease goes on to make the object active. -/
def Revives (w : World) (j : Job) (h : Handle) : Prop :=
  h.sub.status ≠ .deleted ∧ (∃ row, w.subs.rows.get? h.sub.subscriptionId = some row ∧ row.status = .deleted) ∧
    match w.subs.backend with
    | .copies => True
    | .live => h.sub.status = .expired ∧ ∃ id lease, j = .renew id lease

/-- What a call does to the rows, and no other row than these is there afterwards. -/
structure Rewrites (w w' : World) : Prop where
  buries : w.Buries w'
  news : ∀ id, w'.Has id → w.Has id

theorem Rewrites.of_eq (h : w'.subs.rows = w.subs.rows) : w.Rewrites w' := by
  constructor
  · intro id row hrow
    exact ⟨row, by rw [h]; exact hrow, .refl row, fun hd => hd⟩
  · rintro id ⟨row, hrow⟩
    exact ⟨row, by rw [← h]; exact hrow⟩

/-- A row is overwritten, by one that is deleted if it was. -/
theorem Rewrites.set {id : String} {row : Subscription} (new : Subscription) (hrow : w.subs.rows.get? id = some row)
    (halike : new.Alike row) (hdel : row.status = .deleted → new.status = .deleted)
    (h : w'.subs.rows = w.subs.rows.set id new) : w.Rewrites w' := by
  constructor
  · intro id' row' hrow'
    rw [h, Dict.get?_set]
    split
    · rename_i hid
      rw [hid, hrow] at hrow'
      cases hrow'
      exact ⟨new, rfl, halike, hdel⟩
    · exact ⟨row', hrow', .refl row', fun hd => hd⟩
  · rintro id' ⟨row', hrow'⟩
    rw [h, Dict.get?_set] at hrow'
    split at hrow'
    · rename_i hid
      exact ⟨row, by rw [hid]; exact hrow⟩
    · exact ⟨row', hrow'⟩

/-- An assignment that is deleted on no deleted object, or leaves it so. -/
theorem Rewrites.assign {h : Handle} {e : Edit} (he : e.LeavesDeleted ∨ (w.subs.backend = .live →
    ∀ row, w.subs.rows.get? h.sub.subscriptionId = some row → row.status ≠ .deleted)) :
    w.Rewrites { w with subs := (w.subs.assign h e).2 } := by
  unfold SubscriptionStore.assign
  split
  · exact .of_eq rfl
  · rename_i hlive
    split
    · rename_i row hrow
      refine .set (e.apply row) hrow (e.apply_alike row) (fun hd => ?_) rfl
      rcases he with he | hgone
      · cases e with
        | status st => exact he
        | leaseUntil t => exact hd
        | cursor topic cursor => exact hd
      · exact absurd hd (hgone hlive row hrow)
    · exact .of_eq rfl

/-- What neutral calls do, where no write takes a deletion back. -/
theorem Rewrites.exec {j : Job} {i : Nat} {o : Op} {c : Choice} {r : o.Res} (ho : neutralProtocol.asks o)
    (hrevives : ∀ h, o = .update h → ¬ w.Revives j h) (hex : World.exec i o c w = some (r, w')) : w.Rewrites w' := by
  cases o with
  | add sub highWater => exact ho.elim
  | update h =>
    cases hex
    show w.Rewrites { w with subs := (w.subs.update h).2 }
    unfold SubscriptionStore.update
    split
    · exact .of_eq rfl
    · rename_i hcopies
      split
      · exact .of_eq rfl
      · rename_i row hrow
        refine .set { row with
          status := h.sub.status, leaseUntil := h.sub.leaseUntil, cursors := h.sub.cursors } hrow
          ⟨rfl, rfl, rfl, rfl, rfl, rfl⟩ (fun hd => ?_) rfl
        by_contra hstatus
        exact hrevives h rfl ⟨hstatus, ⟨row, hrow, hd⟩, by rw [hcopies]; trivial⟩
  | assign h e =>
    cases hex
    exact .assign (.inl ho)
  | enqueue item =>
    obtain ⟨-, rfl⟩ := World.enqueue_of_exec hex
    exact .of_eq rfl
  | acquire id =>
    obtain ⟨-, rfl⟩ := World.acquire_of_exec hex
    exact .of_eq rfl
  | _ =>
    cases hex
    exact .of_eq rfl

end World

/-! ## The contract -/

namespace Quota

variable {cfg : PublisherConfig} {fuel : Nat} {j : Job} {i : Nat} {s s' : Snapshot cfg fuel}

/-- Rows are filed under their ids, and nobody has more subscriptions than are allowed. -/
structure Within (s : Snapshot cfg fuel) : Prop where
  keyed : s.state.Keyed
  quota : ∀ quota, cfg.maxSubscriptionsPerSubscriber = some quota → ∀ url, (s.state.kept url).length ≤ quota

/-- What a task can build on while others run. -/
structure Stays (s s' : Snapshot cfg fuel) : Prop where
  buries : s.state.Buries s'.state
  trace : ∀ e ∈ s.trace, e ∈ s'.trace

theorem Stays.refl (s : Snapshot cfg fuel) : Stays s s := ⟨.refl _, fun _ h => h⟩

theorem Stays.trans {s'' : Snapshot cfg fuel} (h : Stays s s') (h' : Stays s' s'') : Stays s s'' :=
  ⟨h.buries.trans h'.buries, fun e he => h'.trace e (h.trace e he)⟩

/-- Every subscription of the subscriber was there when task `i` listed the store. -/
def Counted (i : Nat) (url : String) (s : Snapshot cfg fuel) : Prop :=
  ∀ e ∈ s.trace, e.task = i → e.op = .listAll → ∀ id, s.state.Counts url id → e.before.Has id

/-- The steps that a run may take: no write takes a deletion back, and no subscription of a subscriber has
    come up since a call listed the store that now adds another one. -/
def Respects (j : Job) (i : Nat) (o : Op) (s : Snapshot cfg fuel) : Prop :=
  match o with
  | .update h => ¬ s.state.Revives j h
  | .add sub _ => Counted i sub.subscriberCardUrl s
  | _ => True

/-- The jobs of a publisher with a quota. -/
def contract (cfg : PublisherConfig) (fuel : Nat) : Contract (sem cfg fuel).traced where
  inv s := Within s
  rely _ _ s s' := Stays s s'
  guar _ _ s s' := Stays s s'
  adm j i o _ s := Respects j i o s
  pre _ _ := True
  peer _ _ := True

/-- The task is left with what it needs: it returns, if it does, in `P`. -/
abbrev Ends (j : Job) (i : Nat) {α : Type} (p : M α) (P : α → Snapshot cfg fuel → Prop) (s : Snapshot cfg fuel) : Prop :=
  Yields (contract cfg fuel) j i p P s

theorem stays_next {o : Op} {r : o.Res} {w : World} (h : s.state.Rewrites w) : Stays s (s.next i o r w) :=
  ⟨h.buries, fun e he => by simp [he]⟩

theorem within_next {o : Op} {c : Choice} {r : o.Res} {w : World} (hs : Within s) (h : s.state.Rewrites w)
    (hex : World.exec i o c s.state = some (r, w)) : Within (s.next i o r w) := by
  have hk : w.Keyed := (rowsGrow_exec hs.keyed hex).keyed
  refine ⟨hk, fun quota hq url => ?_⟩
  exact (h.buries.kept_length_le hs.keyed hk h.news url).trans (hs.quota quota hq url)

/-! ## Objects in the hands of a task -/

/-- The object shows no deletion that has not been made. -/
def Shows (h : Handle) (w : World) : Prop :=
  ∃ row, w.subs.rows.get? h.sub.subscriptionId = some row ∧ row.subscriberCardUrl = h.sub.subscriberCardUrl ∧
    (h.sub.status = .deleted → row.status = .deleted)

/-- A live object that is not deleted. -/
def Alive (h : Handle) (w : World) : Prop :=
  w.subs.backend = .live → ∀ row, w.subs.rows.get? h.sub.subscriptionId = some row → row.status ≠ .deleted

/-- What a task comes to know of an object that it goes on with. -/
structure Carries (h : Handle) (w : World) (h' : Handle) (w' : World) : Prop where
  id : h'.sub.subscriptionId = h.sub.subscriptionId
  shows : Shows h w → Shows h' w'
  alive : Alive h w → Alive h' w'

section Objects

variable {w w' : World} {h : Handle}

theorem Shows.buries (hb : w.Buries w') (hh : Shows h w) : Shows h w' := by
  obtain ⟨row, hrow, hurl, hdel⟩ := hh
  obtain ⟨row', hrow', halike, hdel'⟩ := hb _ row hrow
  exact ⟨row', hrow', halike.subscriberCardUrl.trans hurl, fun hd => hdel' (hdel hd)⟩

/-- What a task sees of a live object is its row. -/
theorem carries_deref (hk : w.Keyed) (h : Handle) : Carries h w (w.subs.deref h) w := by
  unfold SubscriptionStore.deref
  split
  · exact ⟨rfl, fun hh => hh, fun hh => hh⟩
  · split
    · rename_i row hrow
      have hid : row.subscriptionId = h.sub.subscriptionId := hk _ row hrow
      refine ⟨hid, fun _ => ⟨row, by rw [hid]; exact hrow, rfl, fun hd => hd⟩, fun hh hlive row' hrow' => ?_⟩
      rw [hid] at hrow'
      exact hh hlive row' hrow'
    · exact ⟨rfl, fun hh => hh, fun hh => hh⟩

/-- A live object that is seen not to be deleted is not. -/
theorem alive_deref (hk : w.Keyed) (hstatus : (w.subs.deref h).sub.status ≠ .deleted) : Alive (w.subs.deref h) w := by
  intro hlive row hrow
  unfold SubscriptionStore.deref at hstatus hrow
  rw [hlive] at hstatus hrow
  simp only at hstatus hrow
  cases hfound : w.subs.rows.get? h.sub.subscriptionId with
  | none =>
    rw [hfound] at hrow
    simp only [hfound] at hrow
    cases hrow
  | some row' =>
    rw [hfound] at hstatus hrow
    simp only [hk _ row' hfound, hfound, Option.some.injEq] at hrow
    rw [← hrow]
    exact hstatus

/-- An assignment that deletes nothing. -/
theorem carries_assign (hk : w.Keyed) (h : Handle) {e : Edit}
    (he : ∀ sub : Subscription, (e.apply sub).status = .deleted → sub.status = .deleted) :
    Carries h w (w.subs.assign h e).1 { w with subs := (w.subs.assign h e).2 } := by
  have halike := fun sub => e.apply_alike sub
  unfold SubscriptionStore.assign
  split
  · rename_i hcopies
    refine ⟨(halike h.sub).subscriptionId, fun hh => ?_, fun _ hlive => ?_⟩
    · obtain ⟨row, hrow, hurl, hdel⟩ := hh
      exact ⟨row, by rw [(halike h.sub).subscriptionId]; exact hrow,
        hurl.trans (halike h.sub).subscriberCardUrl.symm, fun hd => hdel (he _ hd)⟩
    · rw [hcopies] at hlive
      cases hlive
  · split
    · rename_i row hrow
      have hid : (e.apply row).subscriptionId = h.sub.subscriptionId := (halike row).subscriptionId.trans (hk _ row hrow)
      refine ⟨hid, fun _ => ⟨e.apply row, ?_, rfl, fun hd => hd⟩, fun hh hlive row' hrow' => ?_⟩
      · simp [hid]
      · simp only [hid, Dict.get?_set, if_true, Option.some.injEq] at hrow'
        rw [← hrow']
        exact fun hd => hh hlive row hrow (he row hd)
    · rename_i hrow
      refine ⟨(halike h.sub).subscriptionId, fun hh => ?_, fun _ _ row hrow' => ?_⟩
      · obtain ⟨row, hrow', -⟩ := hh
        rw [hrow] at hrow'
        cases hrow'
      · rw [(halike h.sub).subscriptionId] at hrow'
        have hnone : w.subs.rows.get? h.sub.subscriptionId = some row := hrow'
        rw [hrow] at hnone
        cases hnone

end Objects

/-! ## Single calls -/

section Calls

variable {α : Type} {h h' h'' : Handle} {A : Snapshot cfg fuel → Prop}

/-- Neutral programs leave intact what others leave intact. -/
theorem neutral_ends {p : M α} (hp : Neutral p) (hA : ∀ s s', Stays s s' → A s → A s') (hs : A s) :
    Ends j i p (fun _ s' => A s') s := by
  have hsafe : Ends j i p (fun _ _ => True) s := by
    refine Prog.Upholds.safe (C := contract cfg fuel) ?_ (fun _ _ => ⟨trivial, trivial⟩) hp s
    intro o c s r s' hs ho hadm hex
    obtain ⟨w, hcall, rfl⟩ := Snapshot.exec_cases hex
    have hrewrites : s.state.Rewrites w := by
      refine .exec (j := j) ho (fun h heq => ?_) hcall
      subst heq
      exact hadm rfl
    exact ⟨within_next hs hrewrites hcall, stays_next hrewrites, trivial⟩
  exact (hsafe.keep hA hA hs).weaken fun _ _ h => h.2

/-- A local call that only looks. -/
theorem look_ends {o : Op} (hlocal : o.isLocal = true) (ho : o.reads = true) :
    Ends j i (perform o) (fun r s' => s.state.Keyed ∧ Stays s s' ∧ s'.state = s.state ∧
      ∃ c, World.exec i o c s.state = some (r, s.state)) s := by
  refine .callLocal hlocal fun {c r s'} hs hex => ?_
  obtain ⟨w, hcall, rfl⟩ := Snapshot.exec_cases hex
  obtain rfl := World.exec_reads ho hcall
  have hrewrites : s.state.Rewrites s.state := .of_eq rfl
  exact ⟨within_next hs hrewrites hcall, stays_next hrewrites, hs.keyed, stays_next hrewrites, rfl, c, hcall⟩

theorem assign_ends {e : Edit} (he : e.LeavesDeleted ∨ Alive h s.state) :
    Ends j i (perform (.assign h e)) (fun h' s' => s.state.Keyed ∧ Stays s s' ∧ h' = (s.state.subs.assign h e).1 ∧
      s'.state = { s.state with subs := (s.state.subs.assign h e).2 }) s := by
  refine .callLocal rfl fun {c r s'} hs hex => ?_
  obtain ⟨w, hcall, rfl⟩ := Snapshot.exec_cases hex
  have hrewrites : s.state.Rewrites w := by
    cases hcall
    exact .assign he
  refine ⟨within_next hs hrewrites hcall, stays_next hrewrites, hs.keyed, stays_next hrewrites, ?_⟩
  cases hcall
  exact ⟨rfl, rfl⟩

/-- What a job goes on with after calls that others may come between. -/
structure Goes (j : Job) (h : Handle) (s : Snapshot cfg fuel) (h' : Handle) (s' : Snapshot cfg fuel) : Prop where
  stays : Stays s s'
  id : h'.sub.subscriptionId = h.sub.subscriptionId
  shows : Shows h s.state → Shows h' s'.state
  alive : (∃ id lease, j = .renew id lease) → Alive h s.state → Alive h' s'.state

theorem Goes.trans {s'' : Snapshot cfg fuel} (hg : Goes j h s h' s') (hg' : Goes j h' s' h'' s'') : Goes j h s h'' s'' :=
  ⟨hg.stays.trans hg'.stays, hg'.id.trans hg.id, fun hh => hg'.shows (hg.shows hh),
    fun hj hh => hg'.alive hj (hg.alive hj hh)⟩

theorem Carries.goes (hc : Carries h s.state h' s'.state) (hx : Stays s s') : Goes j h s h' s' :=
  ⟨hx, hc.id, hc.shows, fun _ => hc.alive⟩

/-- Writing an expired lease. -/
theorem update_ends (hexpired : h.sub.status = .expired) : Ends j i (perform (.update h)) (fun h' s' => Goes j h s h' s') s := by
  refine .call (A := fun s' => Stays s s') (.refl s) (fun _ _ hx hs => hs.trans hx) fun {s₁ c r s₂} hx hs hadm hex => ?_
  obtain ⟨w, hcall, rfl⟩ := Snapshot.exec_cases hex
  have hrevives : ¬ s₁.state.Revives j h := hadm rfl
  have hrewrites : s₁.state.Rewrites w := by
    refine .exec (o := .update h) (j := j) trivial (fun h heq => ?_) hcall
    cases heq
    exact hrevives
  have hx₂ := stays_next (i := i) (o := .update h) (r := r) hrewrites
  refine ⟨within_next hs hrewrites hcall, hx₂, ?_⟩
  cases hcall
  obtain ⟨hsub, hbackend⟩ : (s₁.state.subs.update h).1.sub = h.sub ∧
      (s₁.state.subs.update h).2.backend = s₁.state.subs.backend := by
    unfold SubscriptionStore.update
    split
    · exact ⟨rfl, rfl⟩
    · split <;> exact ⟨rfl, rfl⟩
  refine ⟨hx.trans hx₂, by rw [hsub], fun hh => ?_, fun hj _ hlive row hrow hdel => ?_⟩
  · have hh' := hh.buries (hx.trans hx₂).buries
    unfold Shows at hh' ⊢
    rw [hsub]
    exact hh'
  · -- a write over a live object leaves it as it is
    have hlive₁ : s₁.state.subs.backend = .live := hbackend.symm.trans hlive
    have hsame : s₁.state.subs.update h = (h, s₁.state.subs) := by simp [SubscriptionStore.update, hlive₁]
    have hrow₁ : s₁.state.subs.rows.get? h.sub.subscriptionId = some row := by simpa [hsame] using hrow
    refine hrevives ⟨?_, ⟨row, hrow₁, hdel⟩, ?_⟩
    · rw [hexpired]
      decide
    · rw [hlive₁]
      exact ⟨hexpired, hj⟩

end Calls

/-! ## Looking subscriptions up -/

section Lookups

variable {h : Handle}

/-- Only what is seen to be active is made to expire. -/
theorem expireIfDue_ends (h : Handle) : Ends j i (expireIfDue h) (fun r s' => Goes j h s r.2 s' ∧
    (r.1 = true → r.2.sub.status = .expired)) s := by
  refine .bind (look_ends (o := .deref h) rfl rfl) fun h₁ s₁ hr => ?_
  obtain ⟨hk, hx, hsame, c, hex⟩ := hr
  cases hex
  have hgoes : Goes j h s (s.state.subs.deref h) s₁ := by
    refine Carries.goes ?_ hx
    rw [hsame]
    exact carries_deref hk h
  refine .bind (look_ends (o := .now) rfl rfl) fun now s₂ hr => ?_
  obtain ⟨-, hx₂, hsame₂, -⟩ := hr
  have hgoes₂ : Goes j h s (s.state.subs.deref h) s₂ := by
    refine hgoes.trans ⟨hx₂, rfl, ?_, fun _ => ?_⟩
    · rw [hsame₂]
      exact fun hh => hh
    · rw [hsame₂]
      exact fun hh => hh
  split
  · rename_i hdue
    have halive : Alive (s.state.subs.deref h) s₂.state := by
      rw [hsame₂, hsame]
      refine alive_deref hk ?_
      rw [hdue.1]
      decide
    refine .bind (assign_ends (.inr halive)) fun h₂ s₃ hr => ?_
    obtain ⟨hk₂, hx₃, rfl, hstate⟩ := hr
    have hcarries := carries_assign hk₂ (s.state.subs.deref h) (e := .status .expired) fun _ hd => (by cases hd)
    rw [← hstate] at hcarries
    refine .pure ⟨hgoes₂.trans (hcarries.goes hx₃), fun _ => ?_⟩
    unfold SubscriptionStore.assign
    split
    · rfl
    · split <;> rfl
  · exact .pure ⟨hgoes₂, fun hd => (by cases hd)⟩

theorem expireAndPersist_ends (h : Handle) : Ends j i (expireAndPersist h) (fun h' s' => Goes j h s h' s') s := by
  refine .bind (expireIfDue_ends h) fun r s₁ hr => ?_
  obtain ⟨changed, h₁⟩ := r
  obtain ⟨hgoes, hexpired⟩ := hr
  cases changed with
  | true => exact (update_ends (hexpired rfl)).weaken fun _ _ hg => hgoes.trans hg
  | false => exact .pure hgoes

theorem isActive_ends (h : Handle) : Ends j i (isActive h) (fun _ _ => True) s :=
  .bind (expireAndPersist_ends h) fun _ _ _ => neutral_ends (A := fun _ => True) (.next trivial fun _ => .pure _)
    (fun _ _ _ h => h) trivial

theorem getSubscription_ends (id : String) : Ends j i (getSubscription id) (fun h s' =>
    (∃ id lease, j = .renew id lease) → Alive h s'.state) s := by
  refine .bind (P := fun found (s' : Snapshot cfg fuel) => ∀ h, found = some h → h.sub.status ≠ .deleted → Alive h s'.state) ?_
    fun found s₁ hfound => ?_
  · refine .call (A := fun _ => True) trivial (fun _ _ _ h => h) fun {s₁ c r s₂} _ hs _ hex => ?_
    obtain ⟨w, hcall, rfl⟩ := Snapshot.exec_cases hex
    obtain rfl := World.exec_reads rfl hcall
    have hrewrites : s₁.state.Rewrites s₁.state := .of_eq rfl
    refine ⟨within_next hs hrewrites hcall, stays_next hrewrites, fun h hr hstatus _ row hrow => ?_⟩
    cases hcall
    obtain ⟨row', hrow', rfl⟩ := Option.map_eq_some_iff.mp hr
    have hat : s₁.state.subs.rows.get? row'.subscriptionId = some row := hrow
    rw [hs.keyed id row' hrow', hrow'] at hat
    cases hat
    exact hstatus
  · cases found with
    | none => exact fun _ hok => (by cases hok)
    | some h =>
      show Ends j i (if h.sub.status = .deleted then _ else _) _ s₁
      split
      · exact fun _ hok => (by cases hok)
      · rename_i hstatus
        exact (expireAndPersist_ends h).weaken fun h' s' hg hj => hg.alive hj (hfound h rfl hstatus)

/-- The programs that go through a list of objects, one after the other. -/
theorem goesAll_ends (f : Handle → M Handle) (all : List Handle → M (List Handle)) (hnil : all [] = pure [])
    (hcons : ∀ h rest, all (h :: rest) = f h >>= fun h => all rest >>= fun hs => pure (h :: hs))
    (hf : ∀ h (s : Snapshot cfg fuel), Ends j i (f h) (fun h' s' => Goes j h s h' s') s) (hs : List Handle) :
    ∀ s : Snapshot cfg fuel, (∀ h ∈ hs, Shows h s.state) → Ends j i (all hs) (fun hs' s' =>
      Stays s s' ∧ (hs'.map fun h => h.sub.subscriptionId) = (hs.map fun h => h.sub.subscriptionId) ∧
        ∀ h ∈ hs', Shows h s'.state) s := by
  induction hs with
  | nil =>
    intro s hshows
    rw [hnil]
    exact .pure ⟨.refl s, rfl, hshows⟩
  | cons h rest ih =>
    intro s hshows
    rw [hcons]
    refine .bind (hf h s) fun h₁ s₁ hg => .bind (ih s₁ fun h' hmem => ?_) fun hs' s₂ hr => .pure ?_
    · exact (hshows h' (List.mem_cons_of_mem _ hmem)).buries hg.stays.buries
    · obtain ⟨hx, hids, hall⟩ := hr
      refine ⟨hg.stays.trans hx, by rw [List.map_cons, List.map_cons, hids, hg.id], fun h' hmem => ?_⟩
      rcases List.mem_cons.mp hmem with rfl | hmem
      · exact (hg.shows (hshows h List.mem_cons_self)).buries hx.buries
      · exact hall h' hmem

end Lookups

/-! ## Counting and adding -/

section Adding

variable {url : String} {quota : Nat}

/-- The task has listed the subscriptions, and saw all of them that are not deleted. -/
def Listed (i : Nat) (hs : List Handle) (s : Snapshot cfg fuel) : Prop :=
  ∃ e ∈ s.trace, e.task = i ∧ e.op = .listAll ∧ ∀ id, e.before.Has id → s.state.Has id ∧
    ∀ url, s.state.Counts url id → id ∈ (hs.filter fun h => h.sub.subscriberCardUrl = url).map fun h => h.sub.subscriptionId

/-- The task has counted fewer subscriptions of a subscriber than are allowed. -/
def Cleared (i : Nat) (url : String) (quota : Nat) (s : Snapshot cfg fuel) : Prop :=
  ∃ e ∈ s.trace, e.task = i ∧ e.op = .listAll ∧ ∃ ids : List String, ids.length < quota ∧
    ∀ id, e.before.Has id → s.state.Has id ∧ (s.state.Counts url id → id ∈ ids)

theorem Cleared.stays (hx : Stays s s') (h : Cleared i url quota s) : Cleared i url quota s' := by
  obtain ⟨e, he, htask, hop, ids, hlt, hall⟩ := h
  refine ⟨e, hx.trace e he, htask, hop, ids, hlt, fun id hid => ?_⟩
  obtain ⟨⟨row, hrow⟩, hcounts⟩ := hall id hid
  obtain ⟨row', hrow', halike, hdel⟩ := hx.buries id row hrow
  refine ⟨⟨row', hrow'⟩, fun hk => ?_⟩
  obtain ⟨row'', hrow'', hurl, hstatus⟩ := hk
  rw [hrow'] at hrow''
  cases hrow''
  exact hcounts ⟨row, hrow, halike.subscriberCardUrl.symm.trans hurl, fun hd => hstatus (hdel hd)⟩

theorem listSubscriptions_ends : Ends j i listSubscriptions (fun hs s' => Listed i hs s') s := by
  refine .bind (P := fun hs (s' : Snapshot cfg fuel) => (∀ h ∈ hs, Shows h s'.state) ∧ ∃ e ∈ s'.trace, e.task = i ∧
    e.op = .listAll ∧ ∀ id, e.before.Has id → id ∈ hs.map fun h => h.sub.subscriptionId) ?_ fun listed s₁ hr => ?_
  · refine .call (A := fun _ => True) trivial (fun _ _ _ h => h) fun {s₁ c r s₂} _ hs _ hex => ?_
    obtain ⟨w, hcall, rfl⟩ := Snapshot.exec_cases hex
    obtain rfl := World.exec_reads rfl hcall
    have hrewrites : s₁.state.Rewrites s₁.state := .of_eq rfl
    refine ⟨within_next hs hrewrites hcall, stays_next hrewrites, ?_⟩
    cases hcall
    refine ⟨fun h hmem => ?_, ⟨i, .listAll, s₁.state.subs.listAll, s₁.state⟩, by simp, rfl, rfl, fun id hid => ?_⟩
    · exact ⟨h.sub, (hs.keyed.listAll_held hmem).1, rfl, fun hd => hd⟩
    · obtain ⟨row, hrow⟩ := hid
      exact hs.keyed.listAll_ids.mem_iff.mpr (Dict.mem_keys_iff.mpr ⟨row, hrow⟩)
  obtain ⟨hshows, e, he, htask, hop, hids⟩ := hr
  refine .bind (goesAll_ends expireAndPersist expireAll rfl (fun _ _ => rfl) (fun h _ => expireAndPersist_ends h) listed s₁ hshows) fun current s₂ hr => ?_
  obtain ⟨hx, hids₂, hshows₂⟩ := hr
  have hderef : ∀ h (s : Snapshot cfg fuel), Ends j i (perform (.deref h)) (fun h' s' => Goes j h s h' s') s := by
    intro h s
    refine (look_ends (o := .deref h) rfl rfl).weaken fun h' s' hr => ?_
    obtain ⟨hk, hx, hsame, c, hex⟩ := hr
    cases hex
    refine Carries.goes ?_ hx
    rw [hsame]
    exact carries_deref hk h
  refine .bind (goesAll_ends _ derefAll rfl (fun _ _ => rfl) hderef current s₂ hshows₂) fun seen s₃ hr => .pure ?_
  obtain ⟨hx₂, hids₃, hshows₃⟩ := hr
  refine ⟨e, hx₂.trace e (hx.trace e he), htask, hop, fun id hid => ?_⟩
  -- one of the objects that were seen is the subscription; if it shows a deletion, there was one
  obtain ⟨h, hmem, rfl⟩ : ∃ h ∈ seen, h.sub.subscriptionId = id := by
    have hlisted := hids id hid
    rw [← hids₂, ← hids₃] at hlisted
    exact List.mem_map.mp hlisted
  obtain ⟨row, hrow, hurl, hdel⟩ := hshows₃ h hmem
  refine ⟨⟨row, hrow⟩, fun url hk => ?_⟩
  obtain ⟨row', hrow', hurl', hstatus⟩ := hk
  rw [hrow] at hrow'
  cases hrow'
  refine List.mem_map.mpr ⟨h, List.mem_filter.mpr ⟨List.mem_filter.mpr ⟨hmem, ?_⟩, ?_⟩, rfl⟩
  · exact decide_eq_true fun hd => hstatus (hdel hd)
  · exact decide_eq_true (hurl.symm.trans hurl')

/-- Whoever passes the check has counted. -/
theorem checkSubscriptionQuota_ends : Ends j i (checkSubscriptionQuota cfg url) (fun _ s' =>
    ∀ quota, cfg.maxSubscriptionsPerSubscriber = some quota → Cleared i url quota s') s := by
  unfold checkSubscriptionQuota
  split
  · rename_i hnone
    refine .pure fun quota hq => ?_
    rw [hnone] at hq
    cases hq
  · rename_i quota hquota
    refine .bind listSubscriptions_ends fun hs s₁ hlisted => ?_
    show Ends j i (if _ ≥ quota then _ else _) _ s₁
    split
    · exact fun _ hok => (by cases hok)
    · rename_i hlt
      refine .pure fun quota' hq => ?_
      rw [hquota] at hq
      cases hq
      obtain ⟨e, he, htask, hop, hall⟩ := hlisted
      refine ⟨e, he, htask, hop, _, ?_, fun id hid => ⟨(hall id hid).1, (hall id hid).2 url⟩⟩
      rw [List.length_map]
      exact Nat.not_le.mp hlt

/-- A task that has counted leaves nobody with too many. -/
theorem add_ends {sub : Subscription} (offsets : Dict String Int)
    (hs : ∀ quota, cfg.maxSubscriptionsPerSubscriber = some quota → Cleared i sub.subscriberCardUrl quota s) :
    Ends j i (perform (.add sub offsets)) (fun _ _ => True) s := by
  refine .call (A := fun s => ∀ quota, cfg.maxSubscriptionsPerSubscriber = some quota →
    Cleared i sub.subscriberCardUrl quota s) hs (fun _ _ hx h quota hq => (h quota hq).stays hx)
    fun {s₁ c r s₂} hcleared hs hadm hex => ?_
  obtain ⟨w, hcall, rfl⟩ := Snapshot.exec_cases hex
  have hcounted : Counted i sub.subscriberCardUrl s₁ := hadm rfl
  have hgrow := rowsGrow_exec hs.keyed hcall
  obtain ⟨hnone, -, rfl⟩ := World.add_of_exec hcall
  have hget : ∀ id, (s₁.state.subs.add sub offsets).rows.get? id =
      if id = sub.subscriptionId then some sub else s₁.state.subs.rows.get? id := fun id => Dict.get?_set _ _ _ _
  have hold : ∀ {url id}, World.Counts { s₁.state with subs := s₁.state.subs.add sub offsets } url id →
      (id = sub.subscriptionId ∧ url = sub.subscriberCardUrl) ∨ s₁.state.Counts url id := by
    rintro url id ⟨row, hrow, hurl, hstatus⟩
    rw [hget] at hrow
    split at hrow
    · rename_i hid
      cases hrow
      exact .inl ⟨hid, hurl.symm⟩
    · exact .inr ⟨row, hrow, hurl, hstatus⟩
  refine ⟨⟨hgrow.keyed, fun quota hq url => ?_⟩, ⟨fun id row hrow => ⟨row, ?_, .refl row, fun hd => hd⟩, ?_⟩, trivial⟩
  · by_cases hurl : url = sub.subscriberCardUrl
    · -- all others of the subscriber were there when the task counted
      obtain ⟨e, he, htask, hop, ids, hlt, hall⟩ := hcleared quota hq
      refine (hgrow.keyed.kept_length_le (sub.subscriptionId :: ids) fun id hid => ?_).trans hlt
      rcases hold hid with ⟨rfl, -⟩ | hcounts
      · exact List.mem_cons_self
      · subst hurl
        exact List.mem_cons_of_mem _ ((hall id (hcounted e he htask hop id hcounts)).2 hcounts)
    · refine ((hgrow.keyed.kept_length_le _ fun id hid => ?_).trans (List.length_map Subscription.subscriptionId).le).trans
        (hs.quota quota hq url)
      rcases hold hid with ⟨-, hsame⟩ | hcounts
      · exact absurd hsame hurl
      · exact hs.keyed.mem_kept_ids.mpr hcounts
  · rw [Snapshot.next_state, hget, if_neg]
    · exact hrow
    · rintro rfl
      rw [hnone] at hrow
      cases hrow
  · intro e he
    simp [he]

end Adding

/-! ## Jobs -/

section Jobs

/-- Neutral programs, where nothing is asked of them. -/
theorem neutral_any {α : Type} {p : M α} (hp : Neutral p) : Ends j i p (fun _ _ => True) s :=
  neutral_ends (A := fun _ => True) hp (fun _ _ _ h => h) trivial

theorem dispatchSubscription_ends (h : Handle) (topics : Option (List String)) :
    Ends j i (dispatchSubscription cfg fuel h topics) (fun _ _ => True) s := by
  refine .bind (isActive_ends h) fun r s₁ _ => ?_
  obtain ⟨active, h₁⟩ := r
  cases active with
  | false => exact .pure trivial
  | true =>
    refine .bind (neutral_any (.call trivial)) fun authorized s₂ _ => ?_
    cases authorized with
    | false => exact .pure trivial
    | true =>
      exact neutral_any (.next trivial fun _ => .bind (Neutral.catchUpAll _ _ _ _).attempt fun outcome =>
        .next trivial fun _ => .raises outcome)

theorem checkSubscribe_ends {req : SubscribeRequest} {topics : List String} :
    Ends j i (checkSubscribe cfg req topics) (fun _ s' => ∀ quota, cfg.maxSubscriptionsPerSubscriber = some quota →
      Cleared i req.subscriberCardUrl quota s') s := by
  unfold checkSubscribe
  refine .bind (neutral_any ?_) fun _ s₁ _ => .bind (neutral_any ?_) fun _ s₂ _ => .bind (neutral_any (.call trivial)) fun r s₃ _ =>
    .bind (neutral_any (.raises r)) fun _ s₄ _ => .bind checkSubscriptionQuota_ends fun _ s₅ hcleared =>
    neutral_ends ?_ (fun _ _ hx h quota hq => (h quota hq).stays hx) hcleared
  · split
    · exact .next trivial fun r => .raises r
    · exact .pure ()
  · split
    · exact .raises _
    · exact .pure ()
  · exact .bind (.raises _) fun _ => .bind (.raises _) fun _ => .bind (.raises _) fun _ => .bind (.getTopics _) fun _ =>
      .bind (.raises _) fun _ => .pure _

theorem subscribe_ends (req : SubscribeRequest) : Ends j i (subscribe cfg fuel req) (fun _ _ => True) s := by
  unfold subscribe
  refine .bind (neutral_any (.raises _)) fun _ s₁ _ => .bind checkSubscribe_ends fun r s₂ hcleared => ?_
  obtain ⟨resolved, models⟩ := r
  have hstays : ∀ s s' : Snapshot cfg fuel, Stays s s' →
      (∀ quota, cfg.maxSubscriptionsPerSubscriber = some quota → Cleared i req.subscriberCardUrl quota s) →
      ∀ quota, cfg.maxSubscriptionsPerSubscriber = some quota → Cleared i req.subscriberCardUrl quota s' :=
    fun _ _ hx h quota hq => (h quota hq).stays hx
  refine .bind (neutral_ends (.call trivial) hstays hcleared) fun now s₃ hcleared =>
    .bind (neutral_ends (.call trivial) hstays hcleared) fun hex s₄ hcleared =>
    .bind (neutral_ends (.startOffsets _ _ _) hstays hcleared) fun offsets s₅ hcleared =>
    .bind (add_ends offsets hcleared) fun h s₆ _ => .bind (P := fun _ _ => True) ?_ fun _ s₇ _ =>
    neutral_any (.next trivial fun _ => .pure _)
  split
  · exact .bind (dispatchSubscription_ends h none) fun _ _ _ => .pure trivial
  · exact .pure trivial

/-- A renewal revives what it found not to be deleted. -/
theorem renew_ends (id : String) (lease : Int) :
    Ends (.renew id lease) i (renew cfg id lease) (fun _ _ => True) s := by
  refine .bind (neutral_any (.raises _)) fun _ s₁ _ => .bind (getSubscription_ends id) fun h s₂ halive =>
    .bind (look_ends (o := .now) rfl rfl) fun now s₃ hr => ?_
  have halive := halive ⟨id, lease, rfl⟩
  obtain ⟨-, -, hsame, -⟩ := hr
  refine .bind (assign_ends (.inl trivial)) fun h₁ s₄ hr => ?_
  obtain ⟨hk, hx, rfl, hstate⟩ := hr
  have hcarries := carries_assign hk h (e := .leaseUntil (now + seconds lease)) fun _ hd => hd
  rw [← hstate] at hcarries
  rw [← hsame] at halive
  refine .bind (assign_ends (.inr (hcarries.alive halive))) fun _ _ _ => neutral_any (.next trivial fun _ => .pure _)

theorem getActiveSubscription_ends (id : String) : Ends j i (getActiveSubscription id) (fun _ _ => True) s := by
  refine .bind (getSubscription_ends id) fun h s₁ _ => neutral_any (.next trivial fun h => ?_)
  split
  · exact .raises _
  · exact .pure h

theorem ack_ends (id cursor : String) : Ends j i (ack id cursor) (fun _ _ => True) s := by
  refine .bind (getActiveSubscription_ends id) fun h s₁ _ => neutral_any (.bind (.raises _) fun topic => ?_)
  split
  · exact .raises _
  · exact .bind (.advance _ _ _ _) fun _ => .pure _

theorem replay_ends (id : String) (from_ to_ : Option String) (limit : Int) :
    Ends j i (replay cfg id from_ to_ limit) (fun _ _ => True) s := by
  refine .bind (getActiveSubscription_ends id) fun h s₁ _ => neutral_any (.bind (.raises _) fun topic => ?_)
  split
  · exact .raises _
  refine .bind (.getTopic topic) fun topicModel => ?_
  split
  · exact .raises _
  · exact .next trivial fun page => .bind (.raises page) fun r => .bind (.raises _) fun _ => .pure _

/-- Every job keeps within the quota. -/
theorem code_ends (j : Job) (i : Nat) (s : Snapshot cfg fuel) : Ends j i (code cfg fuel j) (fun _ _ => True) s := by
  cases j with
  | declareTopic topic => exact neutral_any (.next trivial fun _ => .pure _)
  | compact topic => exact neutral_any (.next trivial fun _ => .pure _)
  | subscribe req => exact .bind (subscribe_ends req) fun _ _ _ => .pure trivial
  | getSubscription id => exact .bind (getSubscription_ends id) fun _ _ _ => .pure trivial
  | listSubscriptions => exact .bind listSubscriptions_ends fun _ _ _ => .pure trivial
  | renew id lease => exact .bind (renew_ends id lease) fun _ _ _ => .pure trivial
  | delete id => exact neutral_any (.bind (.delete id) fun _ => .pure _)
  | ack id cursor => exact .bind (ack_ends id cursor) fun _ _ _ => .pure trivial
  | replay id from_ to_ limit => exact .bind (replay_ends id from_ to_ limit) fun _ _ _ => .pure trivial
  | publish topic type data subject => exact neutral_any (.bind (.publish _ _ _ _) fun _ => .pure _)
  | dispatchPending => exact neutral_any (.bind .dispatchPending fun _ => .pure _)
  | dispatchSubscription h topics => exact .bind (dispatchSubscription_ends h topics) fun _ _ _ => .pure trivial
  | retryDelivery item => exact neutral_any (.bind (.retryDelivery item) fun _ => .pure _)
  | runOnce now batch lease => exact neutral_any (.bind (.runOnce _ _ _) fun _ => .pure _)

theorem contract_sound : (contract cfg fuel).Sound where
  rely_refl _ _ s := .refl s
  rely_trans h h' := h.trans h'
  env_rely := by
    intro e s s' he hs
    obtain ⟨w, hw, rfl⟩ := Option.map_eq_some_iff.mp he
    obtain ⟨clock, authorizer, -, rfl⟩ := World.env_cases hw
    exact ⟨⟨hs.keyed, hs.quota⟩, fun _ _ => ⟨.refl _, fun _ h => h⟩⟩
  peer_rely := fun _ _ _ _ hguar => hguar
  pre_stable := fun _ _ _ => trivial
  code_safe := fun j i s _ _ => Safe.weaken (code_ends j i s) fun _ _ _ => trivial

end Jobs

end Quota

/-! ## Runs -/

section Runs

variable {cfg : PublisherConfig} {fuel : Nat} {backend : Backend} {clock : Time} {authorizer : Option AllowlistAuthorizer}

/-- No write takes a deletion back, and the subscriptions of a subscriber are added one after the other: none
    has come up since the call that adds another one listed them. -/
def QuotaRespected (c : Run.Config cfg fuel) : Action (sem cfg fuel).traced → Prop
  | .task i _ => ∀ t, c.tasks[i]? = some t → ∀ o k, t.prog = .op o k → Quota.Respects t.job i o c.state
  | _ => True

theorem QuotaRespected.admissible (c : Run.Config cfg fuel) (act : Action (sem cfg fuel).traced)
    (hok : QuotaRespected c act) (hgood : (Quota.contract cfg fuel).Good c) :
    (Quota.contract cfg fuel).Admissible c act := by
  cases act with
  | start j => trivial
  | task i ch => exact ⟨fun _ _ _ _ _ _ _ => trivial, fun t ht o k hp _ => hok t ht o k hp⟩
  | env e => trivial
  | crash => exact ⟨hgood.1.keyed, hgood.1.quota⟩

/-- In such runs nobody ever has more subscriptions than are allowed. -/
theorem quota_kept {quota : Nat} (hquota : cfg.maxSubscriptionsPerSubscriber = some quota) {c : Run.Config cfg fuel}
    (hrun : Config.Run QuotaRespected (initial cfg fuel backend clock authorizer) c) (url : String) :
    (c.state.state.kept url).length ≤ quota := by
  have hgood : (Quota.contract cfg fuel).Good (initial cfg fuel backend clock authorizer) :=
    ⟨⟨(fun _ _ h => (by cases h)), fun _ _ _ => Nat.zero_le _⟩, fun _ _ h => (by cases h)⟩
  exact (Quota.contract_sound.good_run QuotaRespected.admissible hgood hrun).1.quota quota hquota url

end Runs


/-! ## Concrete runs -/

namespace Sample

/-- A publisher that allows one subscription to each subscriber. -/
def limited : PublisherConfig := { config with maxSubscriptionsPerSubscriber := some 1 }

def cardUrl : String := "https://sub.example/card"

/-- The calls that manage topics and subscriptions. -/
def managesOnly (_ : Run.Config limited 5) : Action (sem limited 5).traced → Bool
  | .start (.declareTopic _) | .start (.subscribe _) | .start (.delete _) | .start (.renew ..)
  | .start .listSubscriptions => true
  | .task .. | .env (.tick _) => true
  | _ => false

/-- Two calls subscribe side by side: both count before one of them adds. -/
def sideBySide : List (Action (sem limited 5).traced) :=
  call 0 (.declareTopic topic) 1 ++ call 1 (.subscribe subscription) 4 ++ call 2 (.subscribe subscription) 4 ++
    [.task 1 {}, .task 2 {}]

/-- A lapsed subscription is renewed, deleted and replaced, and the renewal ends last. -/
def replaced : List (Action (sem limited 5).traced) :=
  call 0 (.declareTopic topic) 1 ++ call 1 (.subscribe subscription) 7 ++ [.env (.tick 86400000000)] ++
    call 2 (.renew "sub_0" 100000) 1 ++ call 3 (.delete "sub_0") 2 ++ call 4 (.subscribe subscription) 5 ++ [.task 2 {}]

/-- A subscription is deleted before its subscriber subscribes again. -/
def oneByOne : List (Action (sem limited 5).traced) :=
  call 0 (.declareTopic topic) 1 ++ call 1 (.subscribe subscription) 7 ++ call 2 (.delete "sub_0") 2 ++
    call 3 (.subscribe subscription) 7

/-- Deletions are written, and a subscription is added where its subscriber has none. -/
def inTurn (c : Run.Config limited 5) : Action (sem limited 5).traced → Bool
  | .task i _ => calls c i fun _ o => match o with
      | .update h => h.sub.status = .deleted
      | .add sub _ => (c.state.state.kept sub.subscriberCardUrl).isEmpty
      | _ => true
  | _ => true

theorem quotaRespected_of_inTurn {c : Run.Config limited 5} {act : Action (sem limited 5).traced}
    (h : inTurn c act = true) : QuotaRespected c act := by
  cases act with
  | task i ch =>
    intro t ht o k hp
    have htest := calls_spec h ht hp
    cases o with
    | update hd => exact fun hr => hr.1 (of_decide_eq_true htest)
    | add sub offsets =>
      rintro e - - - id ⟨row, hrow, hurl, hstatus⟩
      have hmem : row ∈ c.state.state.kept sub.subscriberCardUrl :=
        List.mem_filter.mpr ⟨Dict.mem_values_iff.mpr ⟨id, hrow⟩, decide_eq_true ⟨hurl, hstatus⟩⟩
      rw [List.isEmpty_iff.mp htest] at hmem
      cases hmem
    | _ => trivial
  | _ => trivial

end Sample

/-- One subscription takes the place of another that was deleted. -/
theorem quota_kept_sample : ∃ c : Run.Config Sample.limited 5,
    Config.Run QuotaRespected (initial Sample.limited 5 .live 0 none) c ∧ (c.state.state.kept Sample.cardUrl).length = 1 ∧
      ∀ url, (c.state.state.kept url).length ≤ 1 := by
  have hrun : ((initial Sample.limited 5 .live 0 none).runsWith Sample.inTurn Sample.oneByOne).any (fun c =>
      (c.state.state.kept Sample.cardUrl).length = 1) = true := by
    decide +kernel
  obtain ⟨c, hc, hlength⟩ := Config.Run.of_any hrun
  have hrespected := hc.mono fun _ _ h => Sample.quotaRespected_of_inTurn h
  exact ⟨c, hrespected, of_decide_eq_true hlength, fun url => quota_kept rfl hrespected url⟩

/-- Two calls that subscribe at the same time leave a subscriber with one subscription too many, and so does a
    renewal that outlasts the deletion of its subscription. -/
theorem racing_calls_exceed_quota :
    (∃ c : Run.Config Sample.limited 5, Config.Run (fun c act => Sample.managesOnly c act = true)
      (initial Sample.limited 5 .live 0 none) c ∧ (c.state.state.kept Sample.cardUrl).length = 2) ∧
    (∃ c : Run.Config Sample.limited 5, Config.Run (fun c act => Sample.managesOnly c act = true)
      (initial Sample.limited 5 .copies 0 none) c ∧ (c.state.state.kept Sample.cardUrl).length = 2) ∧
    ∃ c : Run.Config Sample.limited 5, Config.Run (fun c act => Sample.managesOnly c act = true)
      (initial Sample.limited 5 .live 0 none) c ∧ (c.state.state.kept Sample.cardUrl).length = 2 := by
  have htwice : ∀ backend, ((initial Sample.limited 5 backend 0 none).runsWith Sample.managesOnly Sample.sideBySide).any
      (fun c => (c.state.state.kept Sample.cardUrl).length = 2) = true := by
    intro backend
    cases backend <;> decide +kernel
  have hrenewed : ((initial Sample.limited 5 .live 0 none).runsWith Sample.managesOnly Sample.replaced).any
      (fun c => (c.state.state.kept Sample.cardUrl).length = 2) = true := by
    decide +kernel
  refine ⟨?_, ?_, ?_⟩
  · obtain ⟨c, hc, hlength⟩ := Config.Run.of_any (htwice .live)
    exact ⟨c, hc, of_decide_eq_true hlength⟩
  · obtain ⟨c, hc, hlength⟩ := Config.Run.of_any (htwice .copies)
    exact ⟨c, hc, of_decide_eq_true hlength⟩
  · obtain ⟨c, hc, hlength⟩ := Config.Run.of_any hrenewed
    exact ⟨c, hc, of_decide_eq_true hlength⟩

end A2AEvents
