import A2AEvents.Spec.AcksCorrect
import A2AEvents.Spec.WriteBacks

/-!
# Rows of a store of copies

Three things that a subscriber relies on live in the mutable columns of its row: that a deletion
stays, that a renewed lease stays, and that acked cursors stay. Every task that holds a copy of the
row writes all of these columns when it writes one of them, so each of the three is lost when a copy
that was read before is written after. Apart from that they are kept, however the calls interleave.

## Key results

- `deletion_and_lease_kept`: deletions and renewals stay while no stale copy is written
- `acked_kept_over_copies`: so do acked cursors
- `stale_copy_undoes`, `stale_copy_loses_ack`: runs in which stale copies are written
-/

namespace A2AEvents

open Async Publisher

variable {cfg : PublisherConfig} {fuel : Nat}

/-! ## Deletions and leases -/

namespace Watch

/-- A deletion of `id` is not undone. -/
def deletion (id : String) : Watch where
  rel a b := a.subscriptionId = id → b.subscriptionId = id ∧ (a.status = .deleted → b.status = .deleted)
  fits _ := True
  acks _ _ := True
  current row h := row.subscriptionId = id → row.status = .deleted → h.base.status = .deleted ∨ h.sub.status = .deleted
  exempt _ := False
  refl := fun _ h => ⟨h, fun hd => hd⟩
  trans := fun hab hbc h => ⟨(hbc (hab h).1).1, fun hd => (hbc (hab h).1).2 ((hab h).2 hd)⟩
  added := fun _ => trivial
  edited := by
    intro sub sub' _ he
    refine ⟨trivial, fun hid => ?_⟩
    cases he with
    | expire hactive =>
      refine ⟨hid, fun hd => ?_⟩
      rw [hactive] at hd
      cases hd
    | delete => exact ⟨hid, fun _ => rfl⟩
    | ack => exact ⟨hid, fun hd => hd⟩
  renewed := fun _ _ _ hstatus _ => ⟨trivial, .inr fun hid => ⟨hid, fun hd => absurd hd hstatus⟩⟩
  fits_overwritten := fun _ => trivial
  overwritten := by
    intro row h hid _ _ hcurrent hrel hrow
    refine ⟨hrow, fun hd => ?_⟩
    rcases hcurrent hrow hd with hbase | hsub
    · exact (hrel (hid.symm.trans hrow)).2 hbase
    · exact hsub

/-- The lease of `id` is not shortened, except by a renewal. -/
def lease (id : String) : Watch where
  rel a b := a.subscriptionId = id → b.subscriptionId = id ∧ a.leaseUntil ≤ b.leaseUntil
  fits _ := True
  acks _ _ := True
  current row h := row.subscriptionId = id → row.leaseUntil ≤ h.base.leaseUntil
  exempt j := ∃ n, j = .renew id n
  refl := fun _ h => ⟨h, Int.le_refl _⟩
  trans := fun hab hbc h => ⟨(hbc (hab h).1).1, Int.le_trans (hab h).2 (hbc (hab h).1).2⟩
  added := fun _ => trivial
  edited := by
    intro sub sub' _ he
    refine ⟨trivial, fun hid => ?_⟩
    cases he <;> exact ⟨hid, Int.le_refl _⟩
  renewed := by
    intro sub id' n t hid _ _
    refine ⟨trivial, ?_⟩
    by_cases heq : id' = id
    · exact .inl ⟨n, by rw [heq]⟩
    · exact .inr fun h => absurd (hid.symm.trans h) heq
  fits_overwritten := fun _ => trivial
  overwritten := fun hid _ _ hcurrent hrel hrow =>
    ⟨hrow, Int.le_trans (hcurrent hrow) (hrel (hid.symm.trans hrow)).2⟩

end Watch

/-- A renewal of `id`. -/
def Job.renews (id : String) : Job → Bool
  | .renew id' _ => id' = id
  | _ => false

/-- Calls of clients and workers, in any interleaving. -/
def clients (_ : Run.Config cfg fuel) : Action (sem cfg fuel).traced → Bool
  | .start (.dispatchSubscription ..) => false
  | _ => true

/-- The calls that task `i` makes meet a condition on the world that they find. -/
def onCalls (test : World → Job → Op → Bool) (c : Run.Config cfg fuel) (act : Action (sem cfg fuel).traced) : Bool :=
  clients c act &&
    match act with
    | .task i _ => calls c i (test c.state.state)
    | _ => true

/-- A copy that is written over the deleted row of `id` was read after the deletion, or is deleted itself. -/
def keepsDeletion (id : String) (w : World) (_ : Job) : Op → Bool
  | .update h => h.sub.subscriptionId ≠ id || (w.subs.rows.get? id).all fun row =>
      row.status ≠ .deleted || h.base.status = .deleted || h.sub.status = .deleted
  | _ => true

/-- Unless it renews the lease, a copy that is written over the row of `id` was read with no lesser lease. -/
def keepsLease (id : String) (w : World) (j : Job) : Op → Bool
  | .update h => h.sub.subscriptionId ≠ id || j.renews id || (w.subs.rows.get? id).all fun row =>
      row.leaseUntil ≤ h.base.leaseUntil
  | _ => true

/-- The step is none of a renewal of `id`. -/
def noRenewal (id : String) (c : Run.Config cfg fuel) : Action (sem cfg fuel).traced → Bool
  | .task i _ => (c.tasks[i]?).all fun t => !t.job.renews id
  | _ => true

section

variable {clock : Time} {authorizer : Option AllowlistAuthorizer} {id : String}

/-- A condition on the calls that admits what a watch asks for. -/
private theorem suffices_of_onCalls {W : Watch} {test : World → Job → Op → Bool}
    (hjobs : ∀ id cursor, W.protocol.jobs (.ack id cursor))
    (hadmits : ∀ {w j o}, test w j o = true → W.Inv w → W.Admits j o w) :
    W.Suffices fun (c : Run.Config cfg fuel) act => onCalls test c act = true where
  start := by
    intro c j hok
    cases j with
    | dispatchSubscription h topics => cases hok
    | ack id cursor => exact hjobs id cursor
    | _ => trivial
  task := by
    intro c i ch t o k hok hinv ht hp
    simp only [onCalls, clients, Bool.true_and] at hok
    exact hadmits (calls_spec hok ht hp) hinv

private theorem deletion_suffices (id : String) :
    (Watch.deletion id).Suffices fun (c : Run.Config cfg fuel) act => onCalls (keepsDeletion id) c act = true := by
  refine suffices_of_onCalls (fun _ _ _ _ => trivial) fun {w j o} htest hinv => ?_
  cases o with
  | append => exact fun _ _ => trivial
  | update h =>
    refine .inr fun row hrow hid hd => ?_
    have hsub : h.sub.subscriptionId = id := (hinv.keyed _ row hrow).symm.trans hid
    rw [hsub] at hrow
    simpa [keepsDeletion, hsub, hrow, hd] using htest
  | _ => trivial

private theorem lease_suffices (id : String) :
    (Watch.lease id).Suffices fun (c : Run.Config cfg fuel) act => onCalls (keepsLease id) c act = true := by
  refine suffices_of_onCalls (fun _ _ _ _ => trivial) fun {w j o} htest hinv => ?_
  cases o with
  | append => exact fun _ _ => trivial
  | update h =>
    cases hj : j.renews id with
    | true =>
      cases j with
      | renew id' n =>
        refine .inl ⟨n, ?_⟩
        rw [of_decide_eq_true hj]
      | _ => cases hj
    | false =>
      refine .inr fun row hrow hid => ?_
      have hsub : h.sub.subscriptionId = id := (hinv.keyed _ row hrow).symm.trans hid
      rw [hsub] at hrow
      simpa [keepsLease, hsub, hrow, hj] using htest
  | _ => trivial

/-- With the step from `a` to `b`, which meets the condition, the call `j` returns `v`. -/
def Returns (ok : Run.Config cfg fuel → Action (sem cfg fuel).traced → Bool) (a b : Run.Config cfg fuel) (j : Job)
    (v : Val) : Prop :=
  ∃ i ch, ok a (.task i ch) = true ∧ a.step (.task i ch) = some b ∧ b.tasks[i]? = some ⟨j, .pure v⟩

/-- Over a store of copies and in any interleaving: once a deletion has returned, the subscription stays
    deleted, if nothing but deleted copies and copies read after the deletion are written over it. Once a
    renewal has returned, the lease stays until another renewal, if no copy with a lesser lease is written. -/
theorem deletion_and_lease_kept :
    (∀ {a a' b : Run.Config cfg fuel} {sub : Subscription},
      Config.Run (fun c act => onCalls (keepsDeletion id) c act = true) (initial cfg fuel .copies clock authorizer) a →
      Returns (onCalls (keepsDeletion id)) a a' (.delete id) (.deleted (some sub)) →
      Config.Run (fun c act => onCalls (keepsDeletion id) c act = true) a' b →
        ∃ row, b.state.state.subs.rows.get? id = some row ∧ row.status = .deleted) ∧
    ∀ {a a' b : Run.Config cfg fuel} {n : Int} {sub : Subscription},
      Config.Run (fun c act => onCalls (keepsLease id) c act = true) (initial cfg fuel .copies clock authorizer) a →
      Returns (onCalls (keepsLease id)) a a' (.renew id n) (.subscription sub) →
      Config.Run (fun c act => (onCalls (keepsLease id) c act && noRenewal id c act) = true) a' b →
        ∃ row, b.state.state.subs.rows.get? id = some row ∧ sub.leaseUntil ≤ row.leaseUntil := by
  constructor
  · rintro a a' b sub ha ⟨i, ch, hok, hstep, hends⟩ hb
    have hsuffices : (Watch.deletion id).Suffices fun (c : Run.Config cfg fuel) act =>
        onCalls (keepsDeletion id) c act = true := deletion_suffices id
    have hgood := Watch.good_of_run hsuffices (ha.step _ hok hstep)
    obtain ⟨row, hrow, hdeleted⟩ := Watch.left_of_step hsuffices (Watch.good_of_run hsuffices ha) hok hstep hends
    obtain ⟨row', hrow', hrel⟩ := Watch.keeps_of_run hsuffices (fun _ _ h => h) hgood hb id row hrow
    exact ⟨row', hrow', (hrel (hgood.1.keyed id row hrow)).2 hdeleted⟩
  · rintro a a' b n sub ha ⟨i, ch, hok, hstep, hends⟩ hb
    have hsuffices : (Watch.lease id).Suffices fun (c : Run.Config cfg fuel) act =>
        onCalls (keepsLease id) c act = true := lease_suffices id
    have hquiet : (Watch.lease id).Suffices fun (c : Run.Config cfg fuel) act =>
        (onCalls (keepsLease id) c act && noRenewal id c act) = true := by
      constructor
      · intro c j h
        rw [Bool.and_eq_true] at h
        exact hsuffices.start h.1
      · intro c i ch t o k h
        rw [Bool.and_eq_true] at h
        exact hsuffices.task h.1
    have hgood := Watch.good_of_run hsuffices (ha.step _ hok hstep)
    obtain ⟨row, hrow, hlease⟩ := Watch.left_of_step hsuffices (Watch.good_of_run hsuffices ha) hok hstep hends
    -- the jobs that move are no renewals of this subscription
    have hothers : ∀ {c : Run.Config cfg fuel} {i : Nat} {ch : Choice} {t : Task sig},
        (onCalls (keepsLease id) c (.task i ch) && noRenewal id c (.task i ch)) = true → c.tasks[i]? = some t →
          ¬ (Watch.lease id).exempt t.job := by
      rintro c i ch t hok ht ⟨n, hj⟩
      simp [noRenewal, ht, hj, Job.renews] at hok
    obtain ⟨row', hrow', hrel⟩ := Watch.keeps_of_run hquiet hothers hgood hb id row hrow
    refine ⟨row', hrow', ?_⟩
    rw [← hlease]
    exact (hrel (hgood.1.keyed id row hrow)).2

/-- The job and the value of a task that has returned. -/
def result? (c : Run.Config cfg fuel) (i : Nat) : Option (Job × Val) :=
  match c.tasks[i]? with
  | some ⟨j, .pure v⟩ => some (j, v)
  | _ => none

private theorem getElem?_of_result? {c : Run.Config cfg fuel} {i : Nat} {r : Job × Val} (h : result? c i = some r) :
    c.tasks[i]? = some ⟨r.1, .pure r.2⟩ := by
  unfold result? at h
  split at h
  · rename_i ht
    cases h
    exact ht
  · cases h

/-- A schedule with a call that returns in its midst. -/
private theorem returns_of_schedule (ok ok' : Run.Config cfg fuel → Action (sem cfg fuel).traced → Bool)
    (c : Run.Config cfg fuel) (before : List (Action (sem cfg fuel).traced)) (i : Nat) (ch : Choice)
    (after : List (Action (sem cfg fuel).traced)) (p : Job × Val → Run.Config cfg fuel → Bool)
    (h : (c.runsWith ok before).any (fun a => ok a (.task i ch) && (a.step (.task i ch)).any fun a' =>
      (result? a' i).any fun r => (a'.runsWith ok' after).any (p r)) = true) :
    ∃ a a' b r, Config.Run (fun c act => ok c act = true) c a ∧ Returns ok a a' r.1 r.2 ∧
      Config.Run (fun c act => ok' c act = true) a' b ∧ p r b = true := by
  obtain ⟨a, ha, hrest⟩ := Config.Run.of_any h
  rw [Bool.and_eq_true] at hrest
  obtain ⟨a', hstep, hrest'⟩ := (Option.any_eq_true _ _).mp hrest.2
  obtain ⟨r, hresult, hafter⟩ := (Option.any_eq_true _ _).mp hrest'
  obtain ⟨b, hb, hp⟩ := Config.Run.of_any hafter
  exact ⟨a, a', b, r, ha, ⟨i, ch, hrest.1, hstep, getElem?_of_result? hresult⟩, hb, hp⟩

/-- A deletion of `id` that found the subscription. -/
private def deletes (id : String) : Job × Val → Bool
  | (.delete id', .deleted (some _)) => id' = id
  | _ => false

private theorem deletes_spec {id : String} {r : Job × Val} (h : deletes id r = true) :
    ∃ sub, r = (.delete id, .deleted (some sub)) := by
  unfold deletes at h
  split at h
  · rename_i id' sub
    exact ⟨sub, by rw [of_decide_eq_true h]⟩
  · cases h

/-- The lease that a renewal of `id` has returned. -/
private def renewedUntil (id : String) : Job × Val → Option Time
  | (.renew id' _, .subscription sub) => if id' = id then some sub.leaseUntil else none
  | _ => none

private theorem renewedUntil_spec {id : String} {r : Job × Val} {t : Time} (h : renewedUntil id r = some t) :
    ∃ n sub, r = (.renew id n, .subscription sub) ∧ sub.leaseUntil = t := by
  unfold renewedUntil at h
  split at h
  · rename_i id' n sub
    split at h
    · rename_i hid
      exact ⟨n, sub, by rw [hid], Option.some.inj h⟩
    · cases h
  · cases h

/-- A deletion and a renewal, each followed by a publish that dispatches. -/
theorem deletion_and_lease_kept_sample :
    (∃ b : Run.Config Sample.config 5, ∃ row, b.state.state.subs.rows.get? "sub_0" = some row ∧
      row.status = .deleted) ∧
    ∃ b : Run.Config Sample.config 5, ∃ sub : Subscription, ∃ row,
      b.state.state.subs.rows.get? "sub_0" = some row ∧ sub.leaseUntil ≤ row.leaseUntil := by
  constructor
  · obtain ⟨a, a', b, r, ha, hreturns, hb, hp⟩ := returns_of_schedule (onCalls (keepsDeletion "sub_0"))
      (onCalls (keepsDeletion "sub_0")) (initial Sample.config 5 .copies 0 none)
      (Sample.subscribed ++ Sample.call 2 (.delete "sub_0") 1) 2 {}
      (Sample.call 3 (.publish "t" "x" [] none) 3 ++ [.task 4 {}]) (fun r _ => deletes "sub_0" r) (by decide +kernel)
    obtain ⟨sub, rfl⟩ := deletes_spec hp
    exact ⟨b, deletion_and_lease_kept.1 ha hreturns hb⟩
  · obtain ⟨a, a', b, r, ha, hreturns, hb, hp⟩ := returns_of_schedule (onCalls (keepsLease "sub_0"))
      (fun c act => onCalls (keepsLease "sub_0") c act && noRenewal "sub_0" c act)
      (initial Sample.config 5 .copies 0 none) (Sample.subscribed ++ Sample.call 2 (.renew "sub_0" 100000) 1) 2 {}
      (Sample.call 3 (.publish "t" "x" [] none) 3 ++ List.replicate 13 (.task 4 {}))
      (fun r _ => (renewedUntil "sub_0" r).isSome) (by decide +kernel)
    obtain ⟨t, ht⟩ := Option.isSome_iff_exists.mp hp
    obtain ⟨n, sub, rfl, -⟩ := renewedUntil_spec ht
    exact ⟨b, sub, deletion_and_lease_kept.2 ha hreturns hb⟩

/-- A dispatch that holds a copy of the subscription from before a deletion, or a renewal, acks its delivery
    after it: the subscription is active again, and has the old lease. -/
theorem stale_copy_undoes :
    (∃ a a' b : Run.Config Sample.config 5, ∃ sub,
      Config.Run (fun c act => clients c act = true) (initial Sample.config 5 .copies 0 none) a ∧
      Returns clients a a' (.delete "sub_0") (.deleted (some sub)) ∧
      Config.Run (fun c act => clients c act = true) a' b ∧
      ¬ ∃ row, b.state.state.subs.rows.get? "sub_0" = some row ∧ row.status = .deleted) ∧
    ∃ a a' b : Run.Config Sample.config 5, ∃ n sub,
      Config.Run (fun c act => clients c act = true) (initial Sample.config 5 .copies 0 none) a ∧
      Returns clients a a' (.renew "sub_0" n) (.subscription sub) ∧
      Config.Run (fun c act => (clients c act && noRenewal "sub_0" c act) = true) a' b ∧
      ¬ ∃ row, b.state.state.subs.rows.get? "sub_0" = some row ∧ sub.leaseUntil ≤ row.leaseUntil := by
  constructor
  · obtain ⟨a, a', b, r, ha, hreturns, hb, hp⟩ := returns_of_schedule clients clients (initial Sample.config 5 .copies 0 none)
      (Sample.subscribed ++ Sample.call 2 (.publish "t" "x" [] none) 3 ++ Sample.call 4 (.delete "sub_0") 1) 4 {}
      (List.replicate 7 (.task 3 {}))
      (fun r b => deletes "sub_0" r && !(b.state.state.subs.rows.get? "sub_0").any fun row => row.status = .deleted)
      (by decide +kernel)
    simp only [Bool.and_eq_true, Bool.not_eq_true'] at hp
    obtain ⟨sub, rfl⟩ := deletes_spec hp.1
    refine ⟨a, a', b, sub, ha, hreturns, hb, ?_⟩
    rintro ⟨row, hrow, hdeleted⟩
    simp [hrow, hdeleted] at hp
  · obtain ⟨a, a', b, r, ha, hreturns, hb, hp⟩ := returns_of_schedule clients (fun c act => clients c act && noRenewal "sub_0" c act)
      (initial Sample.config 5 .copies 0 none)
      (Sample.subscribed ++ Sample.call 2 (.publish "t" "x" [] none) 3 ++ Sample.call 4 (.renew "sub_0" 100000) 1) 4 {}
      (List.replicate 7 (.task 3 {})) (fun r b => (renewedUntil "sub_0" r).any fun t =>
        !(b.state.state.subs.rows.get? "sub_0").any fun row => t ≤ row.leaseUntil)
      (by decide +kernel)
    obtain ⟨t, ht, hlost⟩ := (Option.any_eq_true _ _).mp hp
    obtain ⟨n, sub, rfl, rfl⟩ := renewedUntil_spec ht
    refine ⟨a, a', b, n, sub, ha, hreturns, hb, ?_⟩
    rintro ⟨row, hrow, hle⟩
    simp [hrow, hle] at hlost

end

/-! ## Acked cursors -/

/-- The cursor is written as the publisher writes the cursors of its first `10 ^ 16` events. -/
def Cursor.Canonical (topic cursor : String) : Prop :=
  ∃ o : Nat, o < 10 ^ Cursor.offsetWidth ∧ Cursor.encode topic o = .ok cursor

/-- Among such cursors, one that is not the earlier text is not the earlier event. -/
theorem Cursor.Canonical.le {topic stored cursor : String} (hs : Cursor.Canonical topic stored)
    (hc : Cursor.Canonical topic cursor) (hlater : ¬ cursor < stored) {o : Nat}
    (ho : Cursor.encode topic o = .ok stored) : ∃ o' : Nat, Cursor.encode topic o' = .ok cursor ∧ o ≤ o' := by
  obtain ⟨n, hn, hstored⟩ := hs
  obtain ⟨m, hm, hcursor⟩ := hc
  refine ⟨m, hcursor, ?_⟩
  have hon := Cursor.encode_inj ho hstored
  rw [Cursor.encode_lt_encode hm hn hcursor hstored] at hlater
  omega

/-- The acked cursors of `id` are kept. -/
def Watch.acked (id : String) : Watch where
  rel a b := a.subscriptionId = id → b.subscriptionId = id ∧ ∀ topic cursor, ∀ o : Nat,
    a.cursors.get? topic = some cursor → Cursor.encode topic o = .ok cursor →
      ∃ cursor', ∃ o' : Nat, b.cursors.get? topic = some cursor' ∧ Cursor.encode topic o' = .ok cursor' ∧ o ≤ o'
  fits sub := ∀ topic cursor, sub.cursors.get? topic = some cursor → Cursor.Canonical topic cursor
  acks := Cursor.Canonical
  current row h := row.subscriptionId = id → ∀ topic cursor, row.cursors.get? topic = some cursor →
    h.base.cursors.get? topic = some cursor ∨ isNewer cursor (h.sub.cursors.get? topic) = false
  exempt _ := False
  refl := fun _ h => ⟨h, fun _ cursor o hget ho => ⟨cursor, o, hget, ho, Nat.le_refl o⟩⟩
  trans := by
    intro a b c hab hbc h
    obtain ⟨hb, hab⟩ := hab h
    obtain ⟨hc, hbc⟩ := hbc hb
    refine ⟨hc, fun topic cursor o hget ho => ?_⟩
    obtain ⟨cursor', o', hget', ho', hle⟩ := hab topic cursor o hget ho
    obtain ⟨cursor'', o'', hget'', ho'', hle'⟩ := hbc topic cursor' o' hget' ho'
    exact ⟨cursor'', o'', hget'', ho'', Nat.le_trans hle hle'⟩
  added := by
    intro sub hnone topic cursor hget
    rw [hnone] at hget
    cases hget
  edited := by
    intro sub sub' hfits he
    cases he with
    | expire => exact ⟨hfits, fun h => ⟨h, fun _ cursor o hget ho => ⟨cursor, o, hget, ho, Nat.le_refl o⟩⟩⟩
    | delete => exact ⟨hfits, fun h => ⟨h, fun _ cursor o hget ho => ⟨cursor, o, hget, ho, Nat.le_refl o⟩⟩⟩
    | @ack acked new hacks hnewer =>
      have hget' : ∀ topic, (Edit.apply (.cursor acked new) sub).cursors.get? topic =
          if topic = acked then some new else sub.cursors.get? topic :=
        fun topic => Dict.get?_set sub.cursors acked topic new
      refine ⟨fun topic cursor hget => ?_, fun h => ⟨h, fun topic cursor o hget ho => ?_⟩⟩
      · rw [hget'] at hget
        split at hget
        · rename_i htopic
          cases hget
          rw [htopic]
          exact hacks
        · exact hfits topic cursor hget
      · rw [hget']
        split
        · rename_i htopic
          subst htopic
          -- the new cursor is the later text
          rw [hget] at hnewer
          have hlt : cursor < new := by simpa [isNewer] using hnewer
          obtain ⟨o', ho', hle⟩ := (hfits topic cursor hget).le hacks (String.lt_asymm hlt) ho
          exact ⟨new, o', rfl, ho', hle⟩
        · exact ⟨cursor, o, hget, ho, Nat.le_refl o⟩
  renewed := fun _ _ _ _ hfits => ⟨hfits, .inr fun h => ⟨h, fun _ cursor o hget ho => ⟨cursor, o, hget, ho, Nat.le_refl o⟩⟩⟩
  fits_overwritten := fun hfits => hfits
  overwritten := by
    intro row h hid hrow hfits hcurrent hrel hat
    refine ⟨hat, fun topic cursor o hget ho => ?_⟩
    rcases hcurrent hat topic cursor hget with hbase | hlater
    · exact (hrel (hid.symm.trans hat)).2 topic cursor o hbase ho
    · cases hsub : h.sub.cursors.get? topic with
      | none =>
        rw [hsub] at hlater
        cases hlater
      | some cursor' =>
        rw [hsub] at hlater
        obtain ⟨o', ho', hle⟩ := (hrow topic cursor hget).le (hfits topic cursor' hsub)
          (by simpa [isNewer] using hlater) ho
        exact ⟨cursor', o', hsub, ho', hle⟩

/-- A cursor that a client acks is written as the publisher writes it, or it is none and the ack is refused. -/
def ackable (cursor : String) : Bool :=
  match Cursor.split cursor with
  | .error _ => true
  | .ok (topic, o) => o < 10 ^ Cursor.offsetWidth && match Cursor.encode topic o with
    | .ok canonical => canonical = cursor
    | .error _ => false

/-- A copy that is written over the row of `id` was read with the stored cursor of every topic, or acks the topic
    no earlier than that. No topic has more than `10 ^ 16` events. -/
def keepsCursors (id : String) (w : World) (_ : Job) : Op → Bool
  | .update h => h.sub.subscriptionId ≠ id || (w.subs.rows.get? id).all fun row => row.cursors.entries.all fun e =>
      h.base.cursors.get? e.1 = some e.2 || !isNewer e.2 (h.sub.cursors.get? e.1)
  | .append topic .. => w.store.count topic < 10 ^ Cursor.offsetWidth
  | _ => true

/-- Calls that keep the acked cursors of `id`. -/
def acksKept (id : String) (c : Run.Config cfg fuel) (act : Action (sem cfg fuel).traced) : Bool :=
  onCalls (keepsCursors id) c act &&
    match act with
    | .start (.ack _ cursor) => ackable cursor
    | _ => true

private theorem canonical_of_ackable {cursor topic : String} (h : ackable cursor = true)
    (htopic : Cursor.topicOf cursor = .ok topic) : Cursor.Canonical topic cursor := by
  unfold ackable at h
  cases hsplit : Cursor.split cursor with
  | error e => simp [Cursor.topicOf, hsplit, Except.map] at htopic
  | ok p =>
    obtain ⟨name, o⟩ := p
    simp only [Cursor.topicOf, hsplit, Except.map, Except.ok.injEq] at htopic
    subst htopic
    simp only [hsplit, Bool.and_eq_true, decide_eq_true_eq] at h
    obtain ⟨ho, hencode⟩ := h
    cases hcursor : Cursor.encode name o with
    | error e => simp [hcursor] at hencode
    | ok canonical =>
      simp only [hcursor, decide_eq_true_eq] at hencode
      exact ⟨o, ho, by rw [hcursor, hencode]⟩

private theorem acked_suffices (id : String) :
    (Watch.acked id).Suffices fun (c : Run.Config cfg fuel) act => acksKept id c act = true where
  start := by
    intro c j hok
    simp only [acksKept, Bool.and_eq_true] at hok
    cases j with
    | dispatchSubscription h topics => cases hok.1
    | ack id' cursor => exact fun topic htopic => canonical_of_ackable hok.2 htopic
    | _ => trivial
  task := by
    intro c i ch t o k hok hinv ht hp
    simp only [acksKept, onCalls, clients, Bool.true_and, Bool.and_true] at hok
    have htest := calls_spec hok ht hp
    cases o with
    | append topic type source data subject =>
      intro r hr
      obtain ⟨hat, -⟩ := EventStore.append_ok hr
      have hcount : c.state.state.store.count topic < 10 ^ Cursor.offsetWidth := of_decide_eq_true htest
      exact ⟨_, hcount, by rw [hat.topic]; exact hat.cursor⟩
    | update h =>
      refine .inr fun row hrow hid topic cursor hget => ?_
      have hsub : h.sub.subscriptionId = id := (hinv.keyed _ row hrow).symm.trans hid
      rw [hsub] at hrow
      simp only [keepsCursors, hsub, hrow, ne_eq, not_true_eq_false, decide_false, Bool.false_or, Option.all_some,
        List.all_eq_true] at htest
      have hentry := htest (topic, cursor) (Dict.mem_entries_iff.mpr hget)
      simpa using hentry
    | _ => trivial

/-- Over a store of copies and in any interleaving: no acked position is lost while no task writes over the
    cursor of a topic that it did not read, or acks itself. -/
theorem acked_kept_over_copies {id : String} {clock : Time} {authorizer : Option AllowlistAuthorizer}
    {a b : Run.Config cfg fuel}
    (ha : Config.Run (fun c act => acksKept id c act = true) (initial cfg fuel .copies clock authorizer) a)
    (hb : Config.Run (fun c act => acksKept id c act = true) a b) :
    KeepsAcked id a.state.state b.state.state := by
  have hsuffices : (Watch.acked id).Suffices fun (c : Run.Config cfg fuel) act => acksKept id c act = true :=
    acked_suffices id
  have hgood := Watch.good_of_run hsuffices ha
  have hkeeps := Watch.keeps_of_run hsuffices (fun _ _ h => h) hgood hb
  intro topic cursor o hacked ho
  obtain ⟨row, hrow, hget⟩ := Option.bind_eq_some_iff.mp hacked
  obtain ⟨row', hrow', hrel⟩ := hkeeps id row hrow
  obtain ⟨n, -, hcursor⟩ := hgood.1.rows id row hrow topic cursor hget
  obtain ⟨cursor', o', hget', hcursor', hle⟩ := (hrel (hgood.1.keyed id row hrow)).2 topic cursor n hget hcursor
  obtain ⟨hon, hne⟩ := Cursor.eq_of_offsetOf_encode hcursor ho
  rw [Int.toNat_natCast] at hon
  refine ⟨cursor', o', ?_, by rw [Cursor.offsetOf_encode hne hcursor', Int.toNat_natCast], by omega⟩
  rw [World.acked, hrow', Option.bind_some, hget']

namespace Sample

/-- A subscription to two topics. -/
def both : SubscribeRequest := { subscription with topics := ["t", "u"] }

/-- Two topics are declared and subscribed to. -/
def subscribedBoth {cfg : PublisherConfig} {fuel : Nat} : List (Action (sem cfg fuel).traced) :=
  call 0 (.declareTopic topic) 1 ++ call 1 (.declareTopic { name := "u" }) 1 ++ call 2 (.subscribe both) 11

end Sample

/-- Two events, published and acked one after the other. -/
theorem acked_kept_over_copies_sample : ∃ a b : Run.Config Sample.config 5,
    a.state.state.acked "sub_0" "t" = some "t:0000000000000000" ∧
    b.state.state.acked "sub_0" "u" = some "u:0000000000000000" ∧ KeepsAcked "sub_0" a.state.state b.state.state := by
  have hrun : ((initial Sample.config 5 .copies 0 none).runsWith (acksKept "sub_0") (Sample.subscribedBoth ++
      Sample.call 3 (.publish "t" "x" [] none) 3 ++ List.replicate 13 (.task 4 {}))).any (fun a =>
      a.state.state.acked "sub_0" "t" = some "t:0000000000000000" &&
      (a.runsWith (acksKept "sub_0") (Sample.call 5 (.publish "u" "x" [] none) 3 ++ List.replicate 13 (.task 6 {}))).any
        fun b => b.state.state.acked "sub_0" "u" = some "u:0000000000000000") = true := by
    decide +kernel
  obtain ⟨a, ha, hp⟩ := Config.Run.of_any hrun
  rw [Bool.and_eq_true] at hp
  obtain ⟨b, hb, hq⟩ := Config.Run.of_any hp.2
  exact ⟨a, b, of_decide_eq_true hp.1, of_decide_eq_true hq, acked_kept_over_copies ha hb⟩

/-- Two events of different topics are published at once. The second dispatch waits for the first one with a copy
    of the subscription from before it, and writes that back. -/
theorem stale_copy_loses_ack : ∃ a b : Run.Config Sample.config 5,
    Config.Run (fun c act => clients c act = true) (initial Sample.config 5 .copies 0 none) a ∧
    Config.Run (fun c act => clients c act = true) a b ∧ ¬ KeepsAcked "sub_0" a.state.state b.state.state := by
  have hrun : ((initial Sample.config 5 .copies 0 none).runsWith clients (Sample.subscribedBoth ++
      Sample.call 3 (.publish "t" "x" [] none) 3 ++ Sample.call 5 (.publish "u" "x" [] none) 3 ++
      List.replicate 13 (.task 4 {}))).any (fun a =>
      a.state.state.acked "sub_0" "t" = some "t:0000000000000000" &&
      (a.runsWith clients (List.replicate 7 (.task 6 {}))).any fun b => b.state.state.acked "sub_0" "t" = none) = true := by
    decide +kernel
  obtain ⟨a, ha, hp⟩ := Config.Run.of_any hrun
  rw [Bool.and_eq_true] at hp
  obtain ⟨b, hb, hq⟩ := Config.Run.of_any hp.2
  refine ⟨a, b, ha, hb, fun hkeeps => ?_⟩
  obtain ⟨cursor, o, hacked, -⟩ := hkeeps "t" _ 0 (of_decide_eq_true hp.1) rfl
  rw [of_decide_eq_true hq] at hacked
  cases hacked

end A2AEvents
