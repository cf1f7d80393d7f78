import A2AEvents.Spec.DeliveryEvaluation

/-!
# Listing subscriptions alone

A listing that nothing interrupts looks at the lease of every subscription, writes down which of
them have expired, and leaves everything else as it is.

## Key results

- `World.exec_edit`: an assignment that is written back
- `expireAndPersist_held`: one lease is looked at
- `listSubscriptions_eval`: what a listing returns and leaves behind
-/

namespace A2AEvents

open Async Publisher

variable {cfg : PublisherConfig} {fuel : Nat}

/-! ## Leases -/

/-- The subscription after its lease was looked at. -/
def Subscription.lookedAt (sub : Subscription) (now : Time) : Subscription :=
  if sub.status = .active ∧ sub.leaseUntil ≤ now then { sub with status := .expired } else sub

@[simp] theorem Subscription.lookedAt_subscriptionId (sub : Subscription) (now : Time) :
    (sub.lookedAt now).subscriptionId = sub.subscriptionId := by
  unfold Subscription.lookedAt
  split <;> rfl

@[simp] theorem Subscription.lookedAt_subscriberCardUrl (sub : Subscription) (now : Time) :
    (sub.lookedAt now).subscriberCardUrl = sub.subscriberCardUrl := by
  unfold Subscription.lookedAt
  split <;> rfl

/-- A lease that runs out does not delete the subscription. -/
@[simp] theorem Subscription.lookedAt_status_eq_deleted (sub : Subscription) (now : Time) :
    (sub.lookedAt now).status = .deleted ↔ sub.status = .deleted := by
  unfold Subscription.lookedAt
  split
  · rename_i hdue
    rw [hdue.1]
    exact ⟨(fun h => (by cases h)), (fun h => (by cases h))⟩
  · exact Iff.rfl

/-- The world with other subscription rows. -/
def World.withRows (w : World) (rows : Dict String Subscription) : World :=
  { w with subs := { w.subs with rows := rows } }

@[simp] theorem World.withRows_rows (w : World) (rows : Dict String Subscription) :
    (w.withRows rows).subs.rows = rows := rfl

/-- An assignment to a subscription in hand that is written back. -/
theorem World.exec_edit {h : Handle} {w : World} (hh : Held h w) (e : Edit) :
    ∃ h₁ w₁, (∀ i c, World.exec i (.assign h e) c w = some (h₁, w₁)) ∧
      ∀ i c, World.exec i (.update h₁) c w₁ = some (⟨e.apply h.sub, e.apply h.sub⟩,
        w.withRows (w.subs.rows.set h.sub.subscriptionId (e.apply h.sub))) := by
  have hrow := hh.row
  cases hb : w.subs.backend with
  | live =>
    -- the object is the row
    refine ⟨⟨e.apply h.sub, e.apply h.sub⟩,
      w.withRows (w.subs.rows.set h.sub.subscriptionId (e.apply h.sub)), fun i c => ?_, fun i c => ?_⟩
    · simp [World.exec, SubscriptionStore.assign, hb, hrow, World.withRows]
    · have hbw : (w.withRows (w.subs.rows.set h.sub.subscriptionId (e.apply h.sub))).subs.backend = .live := hb
      simp [World.exec, SubscriptionStore.update, hbw]
  | copies =>
    -- the copy overwrites the row
    refine ⟨{ h with sub := e.apply h.sub }, w, fun i c => ?_, fun i c => ?_⟩
    · simp [World.exec, SubscriptionStore.assign, hb]
    · have hid : (e.apply h.sub).subscriptionId = h.sub.subscriptionId := (e.apply_alike h.sub).subscriptionId
      have hwritten : ({ h.sub with
          status := (e.apply h.sub).status
          leaseUntil := (e.apply h.sub).leaseUntil
          cursors := (e.apply h.sub).cursors } : Subscription) = e.apply h.sub := by
        cases e <;> rfl
      simp [World.exec, SubscriptionStore.update, hb, hid, hrow, World.withRows, hwritten]

section

variable {reply : Nat → Choice} {i : Nat} {s s' : Snapshot cfg fuel}

/-- One lease is looked at. -/
theorem expireAndPersist_held (reply : Nat → Choice) (i : Nat) {h : Handle} (hh : Held h s.state) :
    let sub := h.sub.lookedAt s.state.clock
    ∃ s' rows, Evals reply i (expireAndPersist h) s (.ok ⟨sub, sub⟩) s' ∧ Quiet s s' ∧
      s'.state = s.state.withRows rows ∧
      ∀ id, rows.get? id = if id = h.sub.subscriptionId then some sub else s.state.subs.rows.get? id := by
  intro sub
  have hderef : ∀ c, World.exec i (.deref h) c s.state = some (h, s.state) := fun c => by
    simp [World.exec, hh.deref]
  let s₂ := (s.next i (.deref h) h s.state).next i .now s.state.clock s.state
  have hquiet : Quiet s s₂ := ((Quiet.refl s).next rfl).next rfl
  by_cases hdue : h.sub.status = .active ∧ h.sub.leaseUntil ≤ s.state.clock
  · have hsub : sub = Edit.apply (.status .expired) h.sub := if_pos hdue
    obtain ⟨h₁, w₁, hassign, hupdate⟩ := World.exec_edit hh (.status .expired)
    let s₃ := s₂.next i (.assign h (.status .expired)) h₁ w₁
    have hexpire : Evals reply i (expireIfDue h) s (.ok (true, h₁)) s₃ := by
      refine .call (hderef _) (.call rfl ?_)
      show Evals reply i (if h.sub.status = .active ∧ h.sub.leaseUntil ≤ s.state.clock then _ else _) _ _ _
      rw [if_pos hdue]
      exact Evals.call (hassign _ _) (.pure _ _)
    let rows := s.state.subs.rows.set h.sub.subscriptionId sub
    refine ⟨s₃.next i (.update h₁) ⟨sub, sub⟩ (s.state.withRows rows), rows, hexpire.bind ?_,
      (hquiet.next rfl).next rfl, rfl, fun id => Dict.get?_set _ _ _ _⟩
    rw [← hsub] at hupdate
    exact Evals.last (hupdate i _)
  · have hsub : sub = h.sub := if_neg hdue
    have hexpire : Evals reply i (expireIfDue h) s (.ok (false, h)) s₂ := by
      refine .call (hderef _) (.call rfl ?_)
      show Evals reply i (if h.sub.status = .active ∧ h.sub.leaseUntil ≤ s.state.clock then _ else _) _ _ _
      rw [if_neg hdue]
      exact .pure _ _
    have hself : (⟨sub, sub⟩ : Handle) = h := by
      obtain ⟨current, base⟩ := h
      obtain rfl : base = current := hh.base
      rw [hsub]
    refine ⟨s₂, s.state.subs.rows, hexpire.bind ?_, hquiet, rfl, fun id => ?_⟩
    · rw [hself]
      exact .pure h _
    · rw [hsub]
      split
      · rename_i hid
        rw [hid, hh.row]
      · rfl

/-- The leases of different subscriptions are looked at one after the other. -/
theorem expireAll_held (reply : Nat → Choice) (i : Nat) (hs : List Handle) :
    ∀ {s : Snapshot cfg fuel}, (∀ h ∈ hs, Held h s.state) → (hs.map fun h => h.sub.subscriptionId).Nodup →
      ∃ s' rows, Evals reply i (expireAll hs) s
          (.ok (hs.map fun h => ⟨h.sub.lookedAt s.state.clock, h.sub.lookedAt s.state.clock⟩)) s' ∧ Quiet s s' ∧
        s'.state = s.state.withRows rows ∧
        (∀ h ∈ hs, rows.get? h.sub.subscriptionId = some (h.sub.lookedAt s.state.clock)) ∧
        ∀ id, id ∉ hs.map (fun h => h.sub.subscriptionId) → rows.get? id = s.state.subs.rows.get? id := by
  induction hs with
  | nil =>
    exact fun {s} _ _ => ⟨s, s.state.subs.rows, .pure _ _, .refl s, rfl, fun _ hh => (by cases hh), fun _ _ => rfl⟩
  | cons h rest ih =>
    intro s hheld hnodup
    obtain ⟨hnotin, hnodup⟩ := List.nodup_cons.mp hnodup
    obtain ⟨s₁, rows, hone, hq, hs₁, hrows⟩ := expireAndPersist_held (s := s) reply i (hheld h (by simp))
    have hother : ∀ id, id ≠ h.sub.subscriptionId → s₁.state.subs.rows.get? id = s.state.subs.rows.get? id := by
      intro id hne
      rw [hs₁, World.withRows_rows, hrows, if_neg hne]
    have hheld₁ : ∀ h' ∈ rest, Held h' s₁.state := by
      intro h' hmem
      have hne : h'.sub.subscriptionId ≠ h.sub.subscriptionId := fun heq =>
        hnotin (List.mem_map.mpr ⟨h', hmem, heq⟩)
      have hh' := hheld h' (by simp [hmem])
      exact ⟨(hother _ hne).trans hh'.row, hh'.base⟩
    have hclock : s₁.state.clock = s.state.clock := by
      rw [hs₁]
      rfl
    obtain ⟨s₂, rows₂, hrest, hq₂, hs₂, hrows₂, hothers₂⟩ := ih hheld₁ hnodup
    rw [hclock] at hrest hrows₂
    refine ⟨s₂, rows₂, hone.bind (hrest.bind (.pure _ _)), hq.trans hq₂, ?_, fun h' hmem => ?_, fun id hid => ?_⟩
    · rw [hs₂, hs₁]
      rfl
    · rcases List.mem_cons.mp hmem with rfl | hmem
      · rw [hothers₂ _ hnotin, hs₁, World.withRows_rows, hrows, if_pos rfl]
      · exact hrows₂ h' hmem
    · simp only [List.map_cons, List.mem_cons, not_or] at hid
      rw [hothers₂ id hid.2, hother id hid.1]

/-- Objects in hand are read as they are. -/
theorem derefAll_held (reply : Nat → Choice) (i : Nat) (hs : List Handle) :
    ∀ {s : Snapshot cfg fuel}, (∀ h ∈ hs, Held h s.state) →
      ∃ s', Evals reply i (derefAll hs) s (.ok hs) s' ∧ Quiet s s' ∧ s'.state = s.state := by
  induction hs with
  | nil => exact fun {s} _ => ⟨s, .pure _ _, .refl s, rfl⟩
  | cons h rest ih =>
    intro s hheld
    have hderef : World.exec i (.deref h) (reply (sendCount s.trace)) s.state = some (h, s.state) := by
      simp [World.exec, (hheld h (by simp)).deref]
    obtain ⟨s₂, hrest, hq, hs₂⟩ := ih (s := s.next i (.deref h) h s.state) fun h' hmem => hheld h' (by simp [hmem])
    exact ⟨s₂, .call hderef (hrest.bind (.pure _ _)), ((Quiet.refl s).next rfl).trans hq, hs₂⟩

/-- Rows are filed under their ids. -/
def World.Keyed (w : World) : Prop :=
  ∀ id row, w.subs.rows.get? id = some row → row.subscriptionId = id

/-- The rows in listing order are the rows of the store. -/
theorem SubscriptionStore.listAll_perm (store : SubscriptionStore) :
    (store.listAll.map Handle.sub).Perm store.rows.values := by
  have hsub : ∀ rows : List Subscription, (rows.map fun sub => (⟨sub, sub⟩ : Handle)).map Handle.sub = rows := by
    intro rows
    rw [List.map_map]
    exact List.map_id rows
  unfold SubscriptionStore.listAll
  rw [hsub]
  cases store.backend with
  | live => exact .refl _
  | copies => exact List.perm_insertionSort _ _

theorem World.Keyed.listAll_held {w : World} (hk : w.Keyed) {h : Handle} (hh : h ∈ w.subs.listAll) : Held h w := by
  have hbase : h.base = h.sub := by
    obtain ⟨row, -, rfl⟩ := List.mem_map.mp hh
    rfl
  have hvalue := w.subs.listAll_perm.mem_iff.mp (List.mem_map_of_mem hh)
  obtain ⟨id, hid⟩ := Dict.mem_values_iff.mp hvalue
  exact ⟨by rw [hk id h.sub hid]; exact hid, hbase⟩

/-- The ids of the rows are the keys of the store. -/
theorem World.Keyed.values_ids {w : World} (hk : w.Keyed) :
    w.subs.rows.values.map Subscription.subscriptionId = w.subs.rows.keys := by
  rw [Dict.values, Dict.keys, List.map_map]
  refine List.map_congr_left fun e he => ?_
  exact hk e.1 e.2 (Dict.mem_entries_iff.mp he)

theorem World.Keyed.listAll_ids {w : World} (hk : w.Keyed) :
    (w.subs.listAll.map fun h => h.sub.subscriptionId).Perm w.subs.rows.keys := by
  have hids := w.subs.listAll_perm.map Subscription.subscriptionId
  rw [List.map_map] at hids
  exact hids.trans (.of_eq hk.values_ids)

/-- What a listing returns. -/
def World.listed (w : World) : List Handle :=
  (w.subs.listAll.map fun h => ⟨h.sub.lookedAt w.clock, h.sub.lookedAt w.clock⟩).filter fun h =>
    h.sub.status ≠ .deleted

/-- A listing returns what is not deleted, as it is after its lease was looked at. -/
theorem listSubscriptions_eval (reply : Nat → Choice) (i : Nat) (hk : s.state.Keyed) :
    ∃ s' rows, Evals reply i listSubscriptions s (.ok s.state.listed) s' ∧ Quiet s s' ∧
      s'.state = s.state.withRows rows ∧
      ∀ id, rows.get? id = (s.state.subs.rows.get? id).map (·.lookedAt s.state.clock) := by
  let hs := s.state.subs.listAll
  have hheld : ∀ h ∈ hs, Held h s.state := fun h hmem => hk.listAll_held hmem
  have hids := hk.listAll_ids
  let s₁ := s.next i .listAll hs s.state
  obtain ⟨s₂, rows, hexpire, hq, hs₂, hrows, hothers⟩ := expireAll_held (s := s₁) reply i hs hheld
    (hids.nodup_iff.mpr s.state.subs.rows.nodup)
  have hlooked : ∀ h ∈ hs.map (fun h => (⟨h.sub.lookedAt s.state.clock, h.sub.lookedAt s.state.clock⟩ : Handle)),
      Held h s₂.state := by
    intro h' hmem
    obtain ⟨h, hlisted, rfl⟩ := List.mem_map.mp hmem
    refine ⟨?_, rfl⟩
    rw [hs₂, World.withRows_rows, Subscription.lookedAt_subscriptionId]
    exact hrows h hlisted
  obtain ⟨s₃, hderef, hq₃, hs₃⟩ := derefAll_held reply i _ hlooked
  have hrun : Evals reply i listSubscriptions s (.ok s.state.listed) s₃ :=
    Evals.call rfl (hexpire.bind (hderef.bind (.pure _ _)))
  refine ⟨s₃, rows, hrun, (((Quiet.refl s).next rfl).trans hq).trans hq₃, hs₃.trans hs₂, fun id => ?_⟩
  cases hrow : s.state.subs.rows.get? id with
  | some row =>
    -- every row is listed
    have hvalue := s.state.subs.listAll_perm.mem_iff.mpr (Dict.mem_values_iff.mpr ⟨id, hrow⟩)
    obtain ⟨h, hmem, rfl⟩ := List.mem_map.mp hvalue
    have hid := hk id h.sub hrow
    subst hid
    exact hrows h hmem
  | none =>
    have hnotin : id ∉ hs.map fun h => h.sub.subscriptionId := by
      intro hmem
      have hkey := hids.mem_iff.mp hmem
      obtain ⟨e, he, rfl⟩ := List.mem_map.mp hkey
      rw [Dict.mem_entries_iff.mp he] at hrow
      cases hrow
    rw [hothers id hnotin]
    exact hrow

end

end A2AEvents
