import A2AEvents.Spec.CallEffects

/-!
# Looking things up

The methods of the publisher that only look, or expire a lapsed lease on the way: each
leaves a stable assertion of its caller intact and tells what its result means.

## Key results

- `getTopic_safe`: topic configs are those of the logs
- `isActive_safe`: what a task that goes on has seen of its subscription
- `readPage_safe`: what a page of the log leaves out
- `startOffset_safe`: start positions
-/

namespace A2AEvents

open Async Publisher

variable {cfg : PublisherConfig} {fuel : Nat} {R : Regime} {j : Job} {i : Nat}
  {s : Snapshot cfg fuel} {A : Snapshot cfg fuel → Prop}

/-- The topic is declared with this config. -/
def TopicOf (name : String) (topic : Topic) (s : Snapshot cfg fuel) : Prop :=
  ∃ log, s.state.store.logs.get? name = some log ∧ log.topic = topic

theorem TopicOf.grows {name : String} {topic : Topic} {s s' : Snapshot cfg fuel}
    (hr : Grows R s s') (h : TopicOf name topic s) : TopicOf name topic s' := by
  obtain ⟨log, hlog, htopic⟩ := h
  obtain ⟨log', hlog', htopic', -⟩ := hr.store name log hlog
  exact ⟨log', hlog', htopic'.trans htopic⟩

theorem Refers.grows {h : Handle} {s s' : Snapshot cfg fuel} (hr : Grows R s s')
    (hh : Refers h s) : Refers h s' := by
  obtain ⟨row, hrow, halike⟩ := hh
  obtain ⟨row', hrow', halike'⟩ := hr.rows _ row hrow
  exact ⟨row', hrow', halike'.trans halike⟩

theorem TopicOf.name_eq {name : String} {topic : Topic} (hinv : Inv R s)
    (h : TopicOf name topic s) : topic.name = name := by
  obtain ⟨log, hlog, rfl⟩ := h
  exact (hinv.store.wf name log hlog).name_eq

/-- Only a topic that is not declared raises. -/
theorem getTopic_safe {name : String} {E : Snapshot cfg fuel → Prop} (hst : Stable R j i A)
    (hA : A s) (hE : ∀ s, A s → s.state.store.logs.get? name = none → E s) :
    Triple R j i (getTopic name)
      (fun topic s => A s ∧ TopicOf name topic s ∧ topic.name = name) E s := by
  unfold getTopic
  refine .bind (P := fun r s => A s ∧ ∀ topic, r = some topic →
    TopicOf name topic s ∧ topic.name = name) ?_ ?_
  · refine .read rfl rfl hst hA ?_
    intro s c r hinv _ hex hA
    simp only [World.exec, Option.some.injEq, Prod.mk.injEq, and_true] at hex
    refine ⟨hA, ?_⟩
    intro topic htopic
    have hof : TopicOf name topic s := hinv.store.cache name topic (hex.trans htopic)
    exact ⟨hof, hof.name_eq hinv⟩
  · rintro (_ | topic) s ⟨hA, htopic⟩
    · refine .bind (P := fun r s => (A s ∧ ∀ topic, r = .ok topic →
        TopicOf name topic s ∧ topic.name = name) ∧ ∀ e, r = .error e → E s) ?_ ?_
      · refine .read rfl rfl hst hA ?_
        intro s c r hinv _ hex hA
        simp only [World.exec, Option.some.injEq, Prod.mk.injEq, and_true] at hex
        cases hlog : s.state.store.logs.get? name with
        | none =>
          refine ⟨⟨hA, ?_⟩, fun _ _ => hE _ hA hlog⟩
          intro topic htopic
          rw [htopic] at hex
          simp only [EventStore.getTopic, hlog] at hex
          cases hex
        | some log =>
          simp only [EventStore.getTopic, hlog] at hex
          subst hex
          refine ⟨⟨hA, ?_⟩, fun _ h => (by cases h)⟩
          intro topic htopic
          have hof : TopicOf name topic s := ⟨log, hlog, by simpa using htopic⟩
          exact ⟨hof, hof.name_eq hinv⟩
      · rintro r s ⟨hr, hraise⟩
        refine .bind (P := fun topic s => A s ∧ TopicOf name topic s ∧ topic.name = name)
          (.orRaise (fun topic h => ⟨hr.1, hr.2 topic h⟩) hraise) ?_
        rintro topic s ⟨hA, htopic, hname⟩
        refine .bind (P := fun _ s => A s ∧ TopicOf name topic s) ?_
          (fun _ s h => .pure ⟨h.1, h.2, hname⟩)
        refine .quiet (A := fun s => A s ∧ TopicOf name topic s) rfl rfl ?_
          (hst.and (.of_interferes fun _ _ hr h => h.grows hr.toGrows)) ⟨hA, htopic⟩ ?_
        · intro s c r w' _ h hex
          simp only [World.exec, Option.some.injEq, Prod.mk.injEq] at hex
          obtain ⟨-, rfl⟩ := hex
          refine ⟨rfl, rfl, ?_, rfl, rfl, rfl, rfl, rfl, fun _ h => h⟩
          intro name' topic' hget
          rw [Dict.get?_set] at hget
          split at hget
          · rename_i heq
            cases hget
            rw [heq]
            exact .inr h.2
          · exact .inl hget
        · intro s c r w' _ _ _ h
          exact h
    · exact .pure ⟨hA, htopic topic rfl⟩

/-- Drawing a uuid. -/
theorem uuid_safe {E : Snapshot cfg fuel → Prop} (hst : Stable R j i A) (hA : A s) :
    Triple R j i (perform .uuid) (fun _ s => A s) E s := by
  refine .quiet rfl rfl ?_ hst hA (fun _ _ _ _ _ _ _ hA => hA)
  intro s c r w' _ _ hex
  simp only [World.exec, Option.some.injEq, Prod.mk.injEq] at hex
  obtain ⟨-, rfl⟩ := hex
  exact ⟨rfl, rfl, fun _ _ => .inl, rfl, rfl, rfl, rfl, rfl, fun _ h => h⟩

/-! ## Subscription objects -/

/-- What a task sees of its object. -/
theorem deref_spec {h : Handle} (hh : Refers h s) :
    (s.state.subs.deref h).sub.Alike h.sub ∧
      (s.state.subs.backend = .live →
        s.state.subs.rows.get? h.sub.subscriptionId = some (s.state.subs.deref h).sub) ∧
      (s.state.subs.backend = .copies → s.state.subs.deref h = h) := by
  obtain ⟨row, hrow, halike⟩ := hh
  cases hb : s.state.subs.backend with
  | live => simp [SubscriptionStore.deref, hb, hrow, halike]
  | copies => simp [SubscriptionStore.deref, hb, Subscription.Alike.refl]

theorem Refers.alike {h h' : Handle} (hh : Refers h s) (ha : h'.sub.Alike h.sub) : Refers h' s := by
  obtain ⟨row, hrow, halike⟩ := hh
  exact ⟨row, by rw [ha.subscriptionId]; exact hrow, halike.trans ha.symm⟩

theorem Refers.assign {h : Handle} (hh : Refers h s) (e : Edit) :
    (s.state.subs.assign h e).1.sub.Alike h.sub := by
  obtain ⟨row, hrow, halike⟩ := hh
  cases hb : s.state.subs.backend with
  | live =>
    simp only [SubscriptionStore.assign, hb, hrow]
    exact (Edit.apply_alike e row).trans halike
  | copies =>
    simp only [SubscriptionStore.assign, hb]
    exact Edit.apply_alike e h.sub

/-- An assignment that keeps acked cursors below the heads. -/
def Edit.Fits (R : Regime) (s : Snapshot cfg fuel) : Edit → Prop
  | .cursor t c => R.bounded = true →
      ∃ o, Cursor.split c = .ok (t, o) ∧ o < s.state.store.count t
  | _ => True

/-- An assignment that revives nothing. -/
def Edit.Tame : Edit → Prop
  | .status st => st ≠ .active
  | .leaseUntil _ => False
  | .cursor .. => True

private theorem Edit.cursors_apply {e : Edit} {row : Subscription} {topic cursor : String}
    (hfits : e.Fits R s) (hb : R.bounded = true)
    (h : (e.apply row).cursors.get? topic = some cursor) : row.cursors.get? topic = some cursor ∨
      ∃ o, Cursor.split cursor = .ok (topic, o) ∧ o < s.state.store.count topic := by
  cases e with
  | status st => exact .inl h
  | leaseUntil t => exact .inl h
  | cursor t c =>
    simp only [Edit.apply, Dict.get?_set] at h
    split at h
    · rename_i heq
      subst heq
      cases h
      exact .inr (hfits hb)
    · exact .inl h

theorem World.Calm.assign {h : Handle} {e : Edit} (hfits : e.Fits R s) :
    s.state.Calm R { s.state with subs := (s.state.subs.assign h e).2 } := by
  cases hb : s.state.subs.backend with
  | copies =>
    have heq : (s.state.subs.assign h e).2 = s.state.subs := by simp [SubscriptionStore.assign, hb]
    rw [heq]
    exact (World.Quiet.refl _).calm
  | live =>
    cases hrow : s.state.subs.rows.get? h.sub.subscriptionId with
    | none =>
      have heq : (s.state.subs.assign h e).2 = s.state.subs := by
        simp [SubscriptionStore.assign, hb, hrow]
      rw [heq]
      exact (World.Quiet.refl _).calm
    | some row =>
      have heq : (s.state.subs.assign h e).2 = { s.state.subs with
          rows := s.state.subs.rows.set h.sub.subscriptionId (e.apply row) } := by
        simp [SubscriptionStore.assign, hb, hrow]
      rw [heq]
      refine ⟨rfl, id, .refl _, fun _ _ h => h, fun _ _ => .inl, ?_, ?_, ?_, rfl, rfl, rfl, rfl,
        fun _ h => h, ?_⟩
      · intro id old hold
        simp only [Dict.get?_set]
        split
        · rename_i hid
          rw [hid, hrow] at hold
          cases hold
          exact ⟨_, rfl, e.apply_alike row⟩
        · exact ⟨old, hold, .refl _⟩
      · intro id hnone
        simp only [Dict.get?_set] at hnone
        split at hnone
        · cases hnone
        · exact hnone
      · intro id hnone
        have hne : id ≠ h.sub.subscriptionId := by
          intro hid
          rw [hid, hrow] at hnone
          cases hnone
        simp [hne, hnone]
      · intro hbound id row' topic cursor hget hc
        simp only [Dict.get?_set] at hget
        split at hget
        · rename_i hid
          cases hget
          rw [hid]
          exact (Edit.cursors_apply hfits hbound hc).imp_left fun hc => ⟨row, hrow, hc⟩
        · exact .inl ⟨row', hget, hc⟩

theorem staysLapsed_assign {h : Handle} {e : Edit} {w' : World} {r : (Op.assign h e).Res}
    (htame : e.Tame) (hw : w' = { s.state with subs := (s.state.subs.assign h e).2 }) :
    StaysLapsed s (s.next i (.assign h e) r w') := by
  intro hlive id row row' hrow hrow'
  subst hw
  simp only [Snapshot.next_state, SubscriptionStore.assign, hlive] at hrow'
  cases hold : s.state.subs.rows.get? h.sub.subscriptionId with
  | none =>
    simp only [hold] at hrow'
    rw [hrow] at hrow'
    cases hrow'
    exact ⟨fun hne => hne, fun hl => hl⟩
  | some old =>
    simp only [hold, Dict.get?_set] at hrow'
    split at hrow'
    · rename_i hid
      cases hrow'
      rw [hid, hold] at hrow
      cases hrow
      cases e with
      | status st => exact ⟨fun _ => htame, fun _ => .inl htame⟩
      | leaseUntil t => exact htame.elim
      | cursor t c => exact ⟨fun hne => hne, fun hl => hl⟩
    · rw [hrow] at hrow'
      cases hrow'
      exact ⟨fun hne => hne, fun hl => hl⟩

/-- An assignment to a field of the object. -/
theorem assign_safe {h : Handle} {e : Edit} {E : Snapshot cfg fuel → Prop}
    {P : Handle → Snapshot cfg fuel → Prop} (hh : Refers h s) (hfits : e.Fits R s)
    (htame : e.Tame)
    (hP : ∀ s', Interferes R i s s' → s'.state.queue = s.state.queue → StaysLapsed s s' →
      (s'.state.subs.backend = .live → ∃ row, s.state.subs.rows.get? h.sub.subscriptionId = some row ∧
        s'.state.subs.rows.get? h.sub.subscriptionId = some (e.apply row) ∧
        (s.state.subs.assign h e).1.sub = e.apply row) →
      (s'.state.subs.backend = .copies → (s.state.subs.assign h e).1 = { h with sub := e.apply h.sub }) →
      P (s.state.subs.assign h e).1 s') :
    Triple R j i (perform (.assign h e)) P E s := by
  refine .callLocal rfl ?_
  intro c r w' hinv hex
  simp only [World.exec, Option.some.injEq, Prod.mk.injEq] at hex
  obtain ⟨rfl, rfl⟩ := hex
  have hcalm := World.Calm.assign (R := R) (s := s) (h := h) hfits
  have hx := staysLapsed_assign (s := s) (i := i) (h := h) (r := (s.state.subs.assign h e).1) htame rfl
  refine ⟨hinv.calm rfl hcalm, guar_of_keeps (.calm rfl hcalm fun _ => hx),
    hP _ (.calm rfl rfl hcalm fun _ => hx) rfl hx ?_ ?_⟩
  · intro hlive
    obtain ⟨row, hrow, -⟩ := hh
    have hlive' : s.state.subs.backend = .live := by rw [← hcalm.backend]; exact hlive
    exact ⟨row, hrow, by simp [SubscriptionStore.assign, hlive', hrow],
      by simp [SubscriptionStore.assign, hlive', hrow]⟩
  · intro hcopies
    have hcopies' : s.state.subs.backend = .copies := by rw [← hcalm.backend]; exact hcopies
    simp [SubscriptionStore.assign, hcopies']

theorem World.Calm.update {h : Handle} (hinv : Inv R s) :
    s.state.Calm R { s.state with subs := (s.state.subs.update h).2 } := by
  cases hb : s.state.subs.backend with
  | live =>
    have heq : (s.state.subs.update h).2 = s.state.subs := by simp [SubscriptionStore.update, hb]
    rw [heq]
    exact (World.Quiet.refl _).calm
  | copies =>
    cases hrow : s.state.subs.rows.get? h.sub.subscriptionId with
    | none =>
      have heq : (s.state.subs.update h).2 = s.state.subs := by
        simp [SubscriptionStore.update, hb, hrow]
      rw [heq]
      exact (World.Quiet.refl _).calm
    | some row =>
      have heq : (s.state.subs.update h).2 = { s.state.subs with
          rows := s.state.subs.rows.set h.sub.subscriptionId { row with
            status := h.sub.status, leaseUntil := h.sub.leaseUntil, cursors := h.sub.cursors } } := by
        simp [SubscriptionStore.update, hb, hrow]
      rw [heq]
      refine ⟨rfl, id, .refl _, fun _ _ h => h, fun _ _ => .inl, ?_, ?_, ?_, rfl, rfl, rfl, rfl,
        fun _ h => h, ?_⟩
      · intro id old hold
        simp only [Dict.get?_set]
        split
        · rename_i hid
          rw [hid, hrow] at hold
          cases hold
          exact ⟨_, rfl, ⟨rfl, rfl, rfl, rfl, rfl, rfl⟩⟩
        · exact ⟨old, hold, .refl _⟩
      · intro id hnone
        simp only [Dict.get?_set] at hnone
        split at hnone
        · cases hnone
        · exact hnone
      · intro id hnone
        have hne : id ≠ h.sub.subscriptionId := by
          intro hid
          rw [hid, hrow] at hnone
          cases hnone
        simp [hne, hnone]
      · -- acked cursors are bounded over live objects only
        intro hbound
        cases (hb.symm.trans (hinv.bounded hbound).backend)

/-- Persisting an object: the object stays as it is. -/
theorem update_safe {h : Handle} {E : Snapshot cfg fuel → Prop} (hst : Firm R j i A) (hA : A s) :
    Triple R j i (perform (.update h)) (fun h' s => A s ∧ h'.sub = h.sub) E s := by
  refine .calm rfl rfl hst hA ?_ ?_
  · intro s c r w' hinv _ hex
    simp only [World.exec, Option.some.injEq, Prod.mk.injEq] at hex
    obtain ⟨rfl, rfl⟩ := hex
    refine ⟨.update hinv, ?_⟩
    intro hlive
    refine StaysLapsed.of_rows_eq ?_ (Int.le_refl _) hlive
    simp [SubscriptionStore.update, hlive]
  · intro s c r w' _ _ hex hA
    simp only [World.exec, Option.some.injEq, Prod.mk.injEq] at hex
    refine ⟨hA, ?_⟩
    rw [← hex.1]
    simp only [SubscriptionStore.update]
    split
    · rfl
    · split <;> rfl

/-- The task sees its subscription as it is now, and an active one with a running lease. -/
structure Sees (h : Handle) (s : Snapshot cfg fuel) : Prop where
  current : s.state.subs.backend = .live → s.state.subs.rows.get? h.sub.subscriptionId = some h.sub
  running : h.sub.status = .active → s.state.clock < h.sub.leaseUntil

/-- The task has a subscription in its hands that is not active. -/
structure Inactive (h : Handle) (s : Snapshot cfg fuel) : Prop where
  live : s.state.subs.backend = .live → ∃ row,
    s.state.subs.rows.get? h.sub.subscriptionId = some row ∧ row.status ≠ .active
  copies : s.state.subs.backend = .copies → h.sub.status ≠ .active

theorem Inactive.stays {h : Handle} (hg : Grows R s s') (hx : StaysLapsed s s')
    (hi : Inactive h s) : Inactive h s' := by
  refine ⟨?_, fun hc => hi.copies (hg.backend ▸ hc)⟩
  intro hlive
  have hlive' : s.state.subs.backend = .live := hg.backend ▸ hlive
  obtain ⟨row, hrow, hne⟩ := hi.live hlive'
  obtain ⟨row', hrow', -⟩ := hg.rows _ row hrow
  exact ⟨row', hrow', (hx hlive' _ row row' hrow hrow').1 hne⟩

theorem firm_inactive {h : Handle} :
    Firm R j i fun s : Snapshot cfg fuel => R.guards j → Inactive h s :=
  ⟨fun _ _ hr hi hg => (hi hg).stays (interferes_of_rely hr).toGrows (staysLapsed_of_rely hg hr),
    fun _ _ hr _ hx hi hg => (hi hg).stays hr.toGrows hx⟩

theorem firm_refers {h : Handle} : Firm R j i fun s : Snapshot cfg fuel => Refers h s :=
  .of_interferes fun _ _ hr h => h.grows hr.toGrows

/-- Looking is no interference. -/
theorem Interferes.read {o : Op} (ho : o.silent = true) (ht : o.takesUp = false) (r : o.Res) :
    Interferes R i s (s.next i o r s.state) :=
  .calm ho ht (World.Quiet.refl _).calm fun _ => .of_rows_eq rfl (Int.le_refl _)

theorem deref_safe {h : Handle} {E : Snapshot cfg fuel → Prop} (hst : Stable R j i A) (hA : A s)
    (hh : Refers h s) :
    Triple R j i (perform (.deref h)) (fun h' s' => A s' ∧ Refers h' s' ∧ h'.sub.Alike h.sub ∧
      s'.state = s.state ∧ h' = s.state.subs.deref h) E s := by
  refine .readLocal rfl rfl ?_
  intro c r _ hex
  simp only [World.exec, Option.some.injEq, Prod.mk.injEq, and_true] at hex
  subst hex
  obtain ⟨halike, -, -⟩ := deref_spec hh
  have hidle : Idles R i s (s.next i (.deref h) (s.state.subs.deref h) s.state) :=
    .quiet rfl rfl (World.Quiet.refl _)
  exact ⟨hst _ _ (rely_of_idles hidle) hA, hh.alike halike, halike, rfl, rfl⟩

/-- What reads as active is the subscription as it is, with a running lease. -/
private theorem sees_deref {h : Handle} (hh : Refers h s) (hseen : Sees h s ∨ Inactive h s)
    (hactive : (s.state.subs.deref h).sub.status = .active) : Sees (s.state.subs.deref h) s := by
  obtain ⟨halike, hlive, hcopies⟩ := deref_spec hh
  cases hb : s.state.subs.backend with
  | live =>
    have hrow := hlive hb
    refine ⟨fun _ => by rw [halike.subscriptionId]; exact hrow, fun _ => ?_⟩
    rcases hseen with hsees | hinactive
    · have heq : (s.state.subs.deref h).sub = h.sub := by simpa [hrow] using hsees.current hb
      rw [heq] at hactive ⊢
      exact hsees.running hactive
    · obtain ⟨row, hrow', hne⟩ := hinactive.live hb
      rw [hrow] at hrow'
      cases hrow'
      exact absurd hactive hne
  | copies =>
    rw [hcopies hb] at hactive ⊢
    rcases hseen with hsees | hinactive
    · exact hsees
    · exact absurd hactive (hinactive.copies hb)

section Objects

variable (hst : Firm R j i A)

include hst

theorem expireIfDue_safe {h : Handle} {E : Snapshot cfg fuel → Prop} (hA : A s) (hh : Refers h s) :
    Triple R j i (expireIfDue h) (fun r s => A s ∧ Refers r.2 s ∧ r.2.sub.Alike h.sub ∧
      (r.1 = false → Sees r.2 s) ∧ (r.1 = true → Inactive r.2 s)) E s := by
  unfold expireIfDue
  refine .bind (deref_safe hst.stable hA hh) ?_
  rintro h₁ s₁ ⟨hA₁, hh₁, halike₁, hstate, hderef⟩
  have hcurrent : s₁.state.subs.backend = .live →
      s₁.state.subs.rows.get? h₁.sub.subscriptionId = some h₁.sub := by
    intro hlive
    rw [halike₁.subscriptionId, hstate, hderef]
    exact (deref_spec hh).2.1 (hstate ▸ hlive)
  refine .bind (P := fun now s => A s ∧ Refers h₁ s ∧ now = s.state.clock ∧ s.state = s₁.state) ?_ ?_
  · refine .readLocal rfl rfl ?_
    intro c r _ hex
    simp only [World.exec, Option.some.injEq, Prod.mk.injEq, and_true] at hex
    exact ⟨hst.stable _ _ (rely_of_idles (.quiet rfl rfl (World.Quiet.refl _))) hA₁, hh₁, hex.symm,
      rfl⟩
  · rintro now s₂ ⟨hA₂, hh₂, hnow, hstate₂⟩
    subst hnow
    split
    · refine .bind (P := fun h' s => A s ∧ Refers h' s ∧ h'.sub.Alike h₁.sub ∧ Inactive h' s)
        ?_ ?_
      · refine assign_safe hh₂ trivial (by simp [Edit.Tame]) ?_
        intro s₃ hr hq hx hlive hcopies
        have halike := hh₂.assign (.status .expired)
        refine ⟨hst.calm _ _ hr hq hx hA₂, (hh₂.grows hr.toGrows).alike halike, halike, ?_, ?_⟩
        · intro hb
          obtain ⟨row, -, hrow', heq⟩ := hlive hb
          refine ⟨_, by rw [halike.subscriptionId]; exact hrow', ?_⟩
          simp [Edit.apply]
        · intro hb
          rw [hcopies hb]
          simp [Edit.apply]
      · rintro h' s₃ ⟨hA₃, hh₃, halike₃, hinactive⟩
        exact .pure ⟨hA₃, hh₃, halike₃.trans halike₁, fun hb => (by cases hb), fun _ => hinactive⟩
    · rename_i hdue
      refine .pure ⟨hA₂, hh₂, halike₁, fun _ => ⟨?_, ?_⟩, fun hb => (by cases hb)⟩
      · rw [hstate₂]; exact hcurrent
      · intro hactive
        exact Int.not_le.mp (not_and.mp hdue hactive)

theorem expireAndPersist_safe {h : Handle} {E : Snapshot cfg fuel → Prop} (hA : A s)
    (hh : Refers h s) :
    Triple R j i (expireAndPersist h) (fun h' s => A s ∧ Refers h' s ∧ h'.sub.Alike h.sub ∧
      (Sees h' s ∨ (R.guards j → Inactive h' s))) E s := by
  unfold expireAndPersist
  refine .bind (expireIfDue_safe hst hA hh) ?_
  rintro ⟨changed, h₁⟩ s₁ ⟨hA₁, hh₁, halike₁, hsees, hinactive⟩
  cases changed with
  | false => exact .pure ⟨hA₁, hh₁, halike₁, .inl (hsees rfl)⟩
  | true =>
    refine (update_safe (hst.and (firm_refers.and firm_inactive))
      ⟨hA₁, hh₁, fun _ => hinactive rfl⟩).mono ?_ (fun _ h => h)
    · rintro h₂ s₂ ⟨⟨hA₂, hh₂, hl₂⟩, heq⟩
      have halike₂ : h₂.sub.Alike h₁.sub := by rw [heq]; exact .refl _
      refine ⟨hA₂, hh₂.alike halike₂, halike₂.trans halike₁, .inr fun hg => ?_⟩
      obtain ⟨hl, hc⟩ := hl₂ hg
      exact ⟨by rw [heq]; exact hl, by rw [heq]; exact hc⟩

/-- A task that finds its subscription active sees it as it is, with a running lease. -/
theorem isActive_safe {h : Handle} {E : Snapshot cfg fuel → Prop} (hA : A s) (hh : Refers h s) :
    Triple R j i (isActive h) (fun r s => A s ∧ Refers r.2 s ∧ r.2.sub.Alike h.sub ∧
      (R.guards j → r.1 = true → r.2.sub.status = .active ∧ Sees r.2 s)) E s := by
  unfold isActive
  refine .bind (expireAndPersist_safe hst hA hh) ?_
  rintro h₁ s₁ ⟨hA₁, hh₁, halike₁, hseen⟩
  refine .bind (deref_safe hst.stable hA₁ hh₁) ?_
  rintro h₂ s₂ ⟨hA₂, hh₂, halike₂, hstate, hderef⟩
  refine .pure ⟨hA₂, hh₂, halike₂.trans halike₁, ?_⟩
  intro hg hactive
  simp only [decide_eq_true_eq] at hactive
  refine ⟨hactive, ?_⟩
  rw [hderef] at hactive ⊢
  obtain ⟨hcurrent, hrunning⟩ := sees_deref hh₁ (hseen.imp_right fun h => h hg) hactive
  exact ⟨by rw [hstate]; exact hcurrent, by rw [hstate]; exact hrunning⟩

end Objects

/-- A fetched object exists. -/
theorem refers_of_get (hinv : Inv R s) {id : String} {h : Handle}
    (hget : s.state.subs.get id = some h) : Refers h s := by
  simp only [SubscriptionStore.get, Option.map_eq_some_iff] at hget
  obtain ⟨row, hrow, rfl⟩ := hget
  refine ⟨row, ?_, .refl _⟩
  rw [hinv.rows.key id row hrow]
  exact hrow

/-- Fetching a subscription. What the caller knows when it is fetched may depend on the row;
    from there on it has to be firm. -/
theorem getSubscription_safe {id : String} {B : Subscription → Snapshot cfg fuel → Prop}
    (hst : Stable R j i A) (hstB : ∀ row, Firm R j i (B row)) (hA : A s)
    (hB : ∀ s c row r, Inv R s → A s → Admissible R j (.get id) c s →
      s.state.subs.rows.get? id = some row → B row (s.next i (.get id) r s.state)) :
    Triple R j i (getSubscription id) (fun h s => h.sub.subscriptionId = id ∧
      (∃ row, B row s ∧ Refers h s ∧ h.sub.Alike row) ∧ (Sees h s ∨ (R.guards j → Inactive h s)))
      (fun _ => True) s := by
  unfold getSubscription
  refine .bind (P := fun r s => ∀ h, r = some h → B h.sub s ∧ Refers h s ∧
    h.sub.subscriptionId = id) ?_ ?_
  · refine .call hst hA ?_
    intro s c r w' hinv hA hadm hex
    obtain rfl := World.exec_reads rfl hex
    have hq := World.Quiet.refl s.state
    refine ⟨hinv.calm rfl hq.calm,
      guar_of_keeps (.calm rfl hq.calm fun _ => .of_rows_eq rfl (Int.le_refl _)), ?_⟩
    intro h hr
    simp only [World.exec, Option.some.injEq, Prod.mk.injEq, and_true] at hex
    have hh := refers_of_get hinv (hex.trans hr)
    rw [hr] at hex
    simp only [SubscriptionStore.get, Option.map_eq_some_iff] at hex
    obtain ⟨row, hrow, rfl⟩ := hex
    exact ⟨hB s c row r hinv hA (hadm rfl) hrow, hh, hinv.rows.key id row hrow⟩
  · rintro (_ | h) s hr
    · exact .orRaise (fun _ h => (by cases h)) (fun _ _ => trivial)
    · obtain ⟨hB, hh, hid⟩ := hr h rfl
      simp only
      split
      · exact .orRaise (fun _ h => (by cases h)) (fun _ _ => trivial)
      · refine (expireAndPersist_safe (E := fun _ => True) (hstB h.sub) hB hh).mono ?_ (fun _ h => h)
        rintro h' s ⟨hB', hh', halike, hseen⟩
        exact ⟨halike.subscriptionId.trans hid, ⟨h.sub, hB', hh', halike⟩, hseen⟩

theorem getActiveSubscription_safe {id : String} {B : Subscription → Snapshot cfg fuel → Prop}
    (hst : Stable R j i A) (hstB : ∀ row, Firm R j i (B row)) (hA : A s)
    (hB : ∀ s c row r, Inv R s → A s → Admissible R j (.get id) c s →
      s.state.subs.rows.get? id = some row → B row (s.next i (.get id) r s.state)) :
    Triple R j i (getActiveSubscription id) (fun h s => h.sub.subscriptionId = id ∧
      (∃ row, B row s ∧ Refers h s ∧ h.sub.Alike row) ∧
      (R.guards j → h.sub.status = .active ∧ Sees h s)) (fun _ => True) s := by
  unfold getActiveSubscription
  refine .bind (getSubscription_safe hst hstB hA hB) ?_
  rintro h s ⟨hid, ⟨row, hB, hh, halike⟩, hseen⟩
  refine .bind (deref_safe (hstB row).stable hB hh) ?_
  rintro h₁ s₁ ⟨hB₁, hh₁, halike₁, hstate, hderef⟩
  split
  · exact .orRaise (fun _ h => (by cases h)) (fun _ _ => trivial)
  · rename_i hactive
    rw [ne_eq, not_not] at hactive
    refine .pure ⟨halike₁.subscriptionId.trans hid, ⟨row, hB₁, hh₁, halike₁.trans halike⟩, ?_⟩
    intro hg
    refine ⟨hactive, ?_⟩
    rw [hderef] at hactive ⊢
    obtain ⟨hcurrent, hrunning⟩ := sees_deref hh (hseen.imp_right fun h => h hg) hactive
    exact ⟨by rw [hstate]; exact hcurrent, by rw [hstate]; exact hrunning⟩

/-- Listed objects exist. -/
theorem refers_of_mem_listAll (hinv : Inv R s) {h : Handle} (hh : h ∈ s.state.subs.listAll) :
    Refers h s := by
  have hrow : ∃ id row, s.state.subs.rows.get? id = some row ∧ h = ⟨row, row⟩ := by
    simp only [SubscriptionStore.listAll, List.mem_map] at hh
    obtain ⟨row, hmem, rfl⟩ := hh
    have hvalue : row ∈ s.state.subs.rows.values := by
      split at hmem
      · exact hmem
      · exact (List.mem_insertionSort SubscriptionStore.rowLe).mp hmem
    obtain ⟨id, hid⟩ := Dict.mem_values_iff.mp hvalue
    exact ⟨id, row, hid, rfl⟩
  obtain ⟨id, row, hget, rfl⟩ := hrow
  refine ⟨row, ?_, .refl _⟩
  have hkey := hinv.rows.key id row hget
  simp only [hkey]
  exact hget

theorem listAll_safe {E : Snapshot cfg fuel → Prop} (hst : Stable R j i A) (hA : A s) :
    Triple R j i (perform .listAll) (fun hs s => A s ∧ ∀ h ∈ hs, Refers h s) E s := by
  refine .read rfl rfl hst hA ?_
  intro s c r hinv _ hex hA
  simp only [World.exec, Option.some.injEq, Prod.mk.injEq, and_true] at hex
  subst hex
  exact ⟨hA, fun h hh => refers_of_mem_listAll hinv hh⟩

theorem expireAll_safe (hs : List Handle) {E : Snapshot cfg fuel → Prop}
    (hst : ∀ s s', Interferes R i s s' → A s → A s') (hA : A s) (hh : ∀ h ∈ hs, Refers h s) :
    Triple R j i (expireAll hs) (fun hs s => A s ∧ ∀ h ∈ hs, Refers h s) E s := by
  induction hs generalizing s A with
  | nil => exact .pure ⟨hA, by simp⟩
  | cons h rest ih =>
    unfold expireAll
    refine .bind (expireAndPersist_safe (A := fun s => A s ∧ ∀ h ∈ rest, Refers h s)
      (.of_interferes ?_) ⟨hA, fun h' hmem => hh h' (by simp [hmem])⟩ (hh h (by simp))) ?_
    · intro s s' hr h
      exact ⟨hst _ _ hr h.1, fun h' hmem => (h.2 h' hmem).grows hr.toGrows⟩
    · rintro h₁ s₁ ⟨⟨hA₁, hrest⟩, hh₁, _, _⟩
      refine .bind (ih (A := fun s => A s ∧ Refers h₁ s) ?_ ⟨hA₁, hh₁⟩ hrest) ?_
      · intro s s' hr h
        exact ⟨hst _ _ hr h.1, h.2.grows hr.toGrows⟩
      · rintro hs s ⟨⟨hA, hh₁⟩, hhs⟩
        refine .pure ⟨hA, ?_⟩
        intro h' hmem
        rcases List.mem_cons.mp hmem with rfl | hmem
        · exact hh₁
        · exact hhs h' hmem

theorem derefAll_safe (hs : List Handle) {E : Snapshot cfg fuel → Prop}
    (hst : ∀ s s', Interferes R i s s' → A s → A s') (hA : A s) (hh : ∀ h ∈ hs, Refers h s) :
    Triple R j i (derefAll hs) (fun _ s => A s) E s := by
  induction hs generalizing s with
  | nil => exact .pure hA
  | cons h rest ih =>
    unfold derefAll
    refine .bind (deref_safe (A := fun s => A s ∧ ∀ h ∈ rest, Refers h s) (.of_interferes ?_)
      ⟨hA, fun h' hmem => hh h' (by simp [hmem])⟩ (hh h (by simp))) ?_
    · intro s s' hr h
      exact ⟨hst _ _ hr h.1, fun h' hmem => (h.2 h' hmem).grows hr.toGrows⟩
    · rintro h₁ s₁ ⟨⟨hA₁, hrest⟩, _⟩
      exact .bind (ih hA₁ hrest) (fun _ s hA => .pure hA)

theorem listSubscriptions_safe {E : Snapshot cfg fuel → Prop}
    (hst : ∀ s s', Interferes R i s s' → A s → A s') (hA : A s) :
    Triple R j i listSubscriptions (fun _ s => A s) E s := by
  unfold listSubscriptions
  refine .bind (listAll_safe (.of_interferes hst) hA) ?_
  rintro hs s ⟨hA, hh⟩
  refine .bind (expireAll_safe hs hst hA hh) ?_
  rintro hs s ⟨hA, hh⟩
  exact .bind (derefAll_safe hs hst hA hh) (fun _ s hA => .pure hA)

/-! ## Reading the log -/

/-- The events of the list are events of the topic, in log order. -/
structure PageOf (topic : String) (records : List EventRecord) (s : Snapshot cfg fuel) : Prop where
  appended : ∀ r ∈ records, r ∈ appended s.trace topic
  canonical : ∀ r ∈ records, ∃ bytes, canonicalize (.obj r.data) = .ok bytes
  sorted : records.Pairwise fun a b => ∀ x y, a.LiesAt topic x → b.LiesAt topic y → x < y

theorem PageOf.grows {topic : String} {records : List EventRecord} {s s' : Snapshot cfg fuel}
    (hr : Grows R s s') (h : PageOf topic records s) : PageOf topic records s' := by
  refine ⟨fun r hmem => ?_, h.canonical, h.sorted⟩
  obtain ⟨l, hl, -⟩ := hr.trace
  rw [hl, appended_append]
  exact List.mem_append_left _ (h.appended r hmem)

theorem pageOf_isPage (hinv : Inv R s) {now : Time} {topic : String} {start : Int}
    {toOffset : Option Nat} {records : List EventRecord}
    (h : EventStore.IsPage topic start toOffset (s.state.store.live now topic) records) :
    PageOf topic records s := by
  refine ⟨?_, ?_, h.sorted hinv.store.wf⟩
  · intro r hr
    exact hinv.store.logged topic r (EventStore.mem_events_of_mem_live (h.sublist.mem hr))
  · intro r hr
    obtain ⟨log, hlog, hmem, -⟩ := EventStore.mem_live.mp (h.sublist.mem hr)
    exact (hinv.store.wf topic log hlog).canonical r hmem

/-- A page read for a subscription at a position: the events beyond the position that it
    leaves out come after it, or were out of retention when it was read. -/
structure Fetched (subscriptionId topic : String) (position : Int) (records : List EventRecord)
    (s : Snapshot cfg fuel) : Prop extends PageOf topic records s where
  below : ∀ q ∈ records, ∃ x, q.LiesAt topic x ∧ x < s.state.store.count topic
  unique : ∀ q ∈ records, ∀ p ∈ A2AEvents.appended s.trace topic, ∀ o, q.LiesAt topic o →
    p.LiesAt topic o → p = q
  covers : ∀ r ∈ A2AEvents.appended s.trace topic, ∀ o, r.LiesAt topic o → position < o →
    r ∈ records ∨ (∀ q ∈ records, ∀ x, q.LiesAt topic x → x < o) ∨
      ∃ e ∈ s.trace, Entry.Passes subscriptionId topic r o e

theorem Fetched.grows {id topic : String} {position : Int} {records : List EventRecord}
    {s s' : Snapshot cfg fuel} (hr : Grows R s s') (h : Fetched id topic position records s) :
    Fetched id topic position records s' := by
  obtain ⟨l, hl, -⟩ := hr.trace
  have hcount := hr.store.count topic
  refine ⟨h.toPageOf.grows hr, ?_, ?_, ?_⟩
  · intro q hq
    obtain ⟨x, hx, hlt⟩ := h.below q hq
    exact ⟨x, hx, Nat.lt_of_lt_of_le hlt hcount⟩
  · intro q hq p hp o ho ho'
    rcases hr.appended topic p hp with hp | ⟨o', hle, hat⟩
    · exact h.unique q hq p hp o ho ho'
    · obtain ⟨x, hx, hlt⟩ := h.below q hq
      have := ho.unique hx
      have := ho'.unique hat
      omega
  intro r hmem o ho hlt
  rcases hr.appended topic r hmem with hmem | ⟨o', ho', hat⟩
  · rcases h.covers r hmem o ho hlt with h' | h' | ⟨e, he, hp⟩
    · exact .inl h'
    · exact .inr (.inl h')
    · exact .inr (.inr ⟨e, by rw [hl]; exact List.mem_append_left _ he, hp⟩)
  · -- appended since: beyond everything the page holds
    refine .inr (.inl fun q hq x hx => ?_)
    obtain ⟨x', hx', hlt'⟩ := h.below q hq
    rw [ho.unique hat, hx.unique hx']
    omega

/-- A page is read from a position, or from the oldest event. -/
def ReadsFrom (topic : String) (position : Int) (fromCursor : Option String) : Prop :=
  fromCursor = none ∨ ∃ cursor, fromCursor = some cursor ∧ Cursor.encode topic position = .ok cursor

theorem cursorAt_ok {topic : String} {position : Int} {from_ : Option String}
    (h : cursorAt topic position = .ok from_) : ReadsFrom topic position from_ := by
  simp only [cursorAt] at h
  split at h
  · cases henc : Cursor.encode topic position with
    | error e => simp [henc, Except.map] at h
    | ok cursor =>
      simp only [henc, Except.map, Except.ok.injEq] at h
      exact .inr ⟨cursor, h.symm, henc⟩
  · simp only [Except.ok.injEq] at h
    exact .inl h.symm

theorem ReadsFrom.start_le {topic : String} {position start : Int} {fromCursor : Option String} {live : List EventRecord}
    (h : ReadsFrom topic position fromCursor) (hs : EventStore.startOffset live topic fromCursor = .ok start) :
    start ≤ max position (-1) := by
  rcases h with rfl | ⟨cursor, rfl, henc⟩
  · simp only [EventStore.startOffset, Except.ok.injEq] at hs
    omega
  · rcases EventStore.startOffset_ok hs with ⟨-, rfl⟩ | ⟨-, rfl⟩ | ⟨cursor', n, hc, hoff, rfl⟩
    · omega
    · omega
    · cases hc
      simp only [Cursor.offsetFor] at hoff
      cases hsplit : Cursor.split cursor with
      | error e => simp [hsplit] at hoff
      | ok q =>
        obtain ⟨t, m⟩ := q
        obtain ⟨rfl, rfl, -⟩ := Cursor.eq_of_split_encode henc hsplit
        simp only [hsplit, ne_eq, not_true_eq_false, if_false, Except.ok.injEq] at hoff
        have := Cursor.encode_nonneg henc
        omega

theorem ReadsFrom.ne_latest {topic : String} {position : Int} {fromCursor : Option String}
    (h : ReadsFrom topic position fromCursor) : fromCursor ≠ some Cursor.latest := by
  rcases h with rfl | ⟨cursor, rfl, henc⟩
  · simp
  · simpa using Cursor.encode_ne_sentinel henc (by decide : ':' ∉ Cursor.latest.toList)

/-- What a read under the lock fetches. -/
private theorem fetched_read {id topic : String} {position : Int} {fromCursor : Option String}
    {limit : Int} {records : List EventRecord} {next : Option String}
    {r : (Op.read topic fromCursor none limit).Res} (hinv : Inv R s)
    (hlock : s.state.locks.get? id = some i)
    (hposition : s.state.subs.position id topic = position)
    (hstart : ∀ start, EventStore.startOffset (s.state.store.live s.state.clock topic) topic
      fromCursor = .ok start → start ≤ max position (-1))
    (hlatest : fromCursor ≠ some Cursor.latest)
    (hread : s.state.store.read s.state.clock topic fromCursor none limit = .ok (records, next)) :
    Fetched id topic position records (s.next i (.read topic fromCursor none limit) r s.state) := by
  obtain ⟨start, toOffset, hs, he, hpage⟩ := EventStore.read_ok hinv.store.wf hlatest hread
  simp only [EventStore.endOffset, Except.ok.injEq] at he
  subst he
  have happ : ∀ name, appended (s.next i (.read topic fromCursor none limit) r s.state).trace name =
      appended s.trace name := appended_next rfl
  have hp := pageOf_isPage hinv hpage
  refine ⟨⟨fun q hq => by rw [happ]; exact hp.appended q hq, hp.canonical, hp.sorted⟩, ?_, ?_, ?_⟩
  · intro q hq
    obtain ⟨o, ho, hat⟩ := hinv.store.numbered topic q (hp.appended q hq)
    exact ⟨o, hat, ho⟩
  · intro q hq p hp' o ho ho'
    rw [happ] at hp'
    exact hinv.store.unique topic p hp' q (hp.appended q hq) o ho' ho
  · intro q hq o ho hlt
    rw [happ] at hq
    obtain ⟨o', ho', hat⟩ := hinv.store.numbered topic q hq
    by_cases hlive : q ∈ s.state.store.live s.state.clock topic
    · have hin : EventStore.InRange start none o := by
        refine ⟨?_, fun _ h => (by cases h)⟩
        have := hstart start hs
        omega
      rcases hpage.covers q hlive o ho hin with h | ⟨-, h⟩
      · exact .inl h
      · exact .inr (.inl h)
    · refine .inr (.inr ⟨_, List.mem_append_right _ (List.mem_singleton.mpr rfl), ?_⟩)
      exact ⟨rfl, hlock, by rw [hposition]; exact hlt, by rw [ho.unique hat]; exact ho', hlive⟩

theorem readPage_safe {topic : String} {position : Int} {fromCursor : Option String}
    (id : String) (hst : Stable R j i A) (hA : A s)
    (hheld : ∀ s, A s → s.state.locks.get? id = some i ∧ s.state.subs.position id topic = position)
    (hfrom : ReadsFrom topic position fromCursor) :
    Triple R j i (readPage cfg topic fromCursor)
      (fun records s => A s ∧ Fetched id topic position records s) A s := by
  have hfetch : ∀ {s : Snapshot cfg fuel} {c : Choice} {from_ : Option String}
      {r : (Op.read topic from_ none cfg.pageSize).Res}, from_ = none ∨ from_ = fromCursor →
      Inv R s → A s → World.exec i (.read topic from_ none cfg.pageSize) c s.state =
        some (r, s.state) → ∀ p, r = .ok p →
      Fetched id topic position p.1 (s.next i (.read topic from_ none cfg.pageSize) r s.state) := by
    intro s c from_ r hfrom_ hinv hA hex p hr
    simp only [World.exec, Option.some.injEq, Prod.mk.injEq, and_true] at hex
    obtain ⟨hlock, hposition⟩ := hheld s hA
    have hreads : ReadsFrom topic position from_ := by
      rcases hfrom_ with rfl | rfl
      · exact .inl rfl
      · exact hfrom
    exact fetched_read hinv hlock hposition (fun _ => hreads.start_le) hreads.ne_latest (hex.trans hr)
  unfold readPage
  refine .bind (P := fun r s => A s ∧ ∀ p, r = .ok p → Fetched id topic position p.1 s) ?_ ?_
  · refine .read rfl rfl hst hA ?_
    intro s c r hinv hA₀ hex hA
    exact ⟨hA, hfetch (.inr rfl) hinv hA₀ hex⟩
  · rintro (e | ⟨records, next⟩) s ⟨hA, hr⟩
    · simp only
      split
      · -- the position aged out of retention
        refine .bind (P := fun r s => A s ∧ ∀ p, r = .ok p → Fetched id topic position p.1 s) ?_ ?_
        · refine .read rfl rfl hst hA ?_
          intro s c r hinv hA₀ hex hA
          exact ⟨hA, hfetch (.inl rfl) hinv hA₀ hex⟩
        · rintro r s ⟨hA, hr⟩
          refine .bind (P := fun p s => A s ∧ Fetched id topic position p.1 s)
            (.orRaise (fun p h => ⟨hA, hr p h⟩) (fun _ _ => hA)) ?_
          rintro ⟨records, next⟩ s ⟨hA, hf⟩
          exact .pure ⟨hA, hf⟩
      · exact .orRaise (fun _ h => (by cases h)) (fun _ _ => hA)
    · exact .pure ⟨hA, hr _ rfl⟩

/-- Looking an event up leaves everything alone. -/
theorem recordAt_frame {topic cursor : String} (hst : Stable R j i A) (hA : A s) :
    Triple R j i (recordAt topic cursor) (fun _ s => A s) A s := by
  have hraise : ∀ {α : Type} {s : Snapshot cfg fuel} (x : Except PyError α), A s →
      Triple R j i (orRaise x) (fun _ s => A s) A s :=
    fun x hA => .orRaise (fun _ _ => hA) (fun _ _ => hA)
  have hread : ∀ {s : Snapshot cfg fuel} {from_ : Option String}, A s →
      Triple R j i (perform (.read topic from_ (some cursor) 1)) (fun _ s => A s) A s :=
    fun hA => .look rfl rfl hst hA
  unfold recordAt
  refine .bind (hraise _ hA) ?_
  intro offset s hA
  refine .bind (hraise _ hA) ?_
  intro from_ s hA
  refine .bind (hread hA) ?_
  rintro ((err | m | m | m | m) | ⟨records, next⟩) s hA
  · simp only
    split
    · exact .pure hA
    · refine .bind (hread hA) ?_
      rintro ((err | m | m | m | m) | ⟨records, next⟩) s hA
      · exact .pure hA
      all_goals exact hraise _ hA
  all_goals exact hraise _ hA

/-! ## Start positions -/

/-- A start position: not before the first event, and below the head if that is asked for. -/
def StartsAt (R : Regime) (topic : String) (v : Int) (s : Snapshot cfg fuel) : Prop :=
  -1 ≤ v ∧ (R.bounded = true → v < s.state.store.count topic)

theorem StartsAt.interferes {topic : String} {v : Int} {s s' : Snapshot cfg fuel}
    (hr : Interferes R i s s') (h : StartsAt R topic v s) : StartsAt R topic v s' := by
  refine ⟨h.1, fun hb => ?_⟩
  have := h.2 hb
  have := hr.store.count topic
  omega

theorem startsAt_none (topic : String) (s : Snapshot cfg fuel) : StartsAt R topic (-1) s :=
  ⟨Int.le_refl _, fun _ => by omega⟩

theorem headOffset_safe {topic : String} (hst : Stable R j i A) (hA : A s) :
    Triple R j i (headOffset topic) (fun v s => A s ∧ StartsAt R topic v s) A s := by
  unfold headOffset
  refine .bind (P := fun n s => A s ∧ n ≤ s.state.store.count topic) ?_ ?_
  · refine .read rfl rfl hst hA ?_
    intro s c r _ _ hex hA
    simp only [World.exec, Option.some.injEq, Prod.mk.injEq, and_true] at hex
    exact ⟨hA, by rw [← hex]; exact Nat.le_refl _⟩
  · rintro n s ⟨hA, hle⟩
    split
    · exact .pure ⟨hA, startsAt_none topic s⟩
    · rename_i hne
      have hpos : 0 < s.state.store.count topic :=
        Nat.lt_of_lt_of_le (Nat.pos_of_ne_zero hne) hle
      refine .bind (P := fun r s => A s ∧ ∀ latest n, r = .ok latest →
        Cursor.offsetOf latest = .ok n → n < s.state.store.count topic) ?_ ?_
      · refine .read (A := fun s => A s ∧ 0 < s.state.store.count topic) rfl rfl ?_ ⟨hA, hpos⟩ ?_
        · refine hst.and (.of_interferes fun s s' hr h => ?_)
          exact Nat.lt_of_lt_of_le h (hr.store.count topic)
        · intro s c r hinv hA₀ hex hA
          simp only [World.exec, Option.some.injEq, Prod.mk.injEq, and_true] at hex
          refine ⟨hA.1, ?_⟩
          intro latest n hr hn
          exact (EventStore.latestCursor_ok hinv.store.wf hA₀.2 (hex.trans hr) hn).1
      · rintro r s ⟨hA, hr⟩
        refine .bind (P := fun latest s => A s ∧ ∀ n, Cursor.offsetOf latest = .ok n →
            n < s.state.store.count topic)
          (.orRaise (fun latest h => ⟨hA, fun n hn => hr latest n h hn⟩) (fun _ _ => hA)) ?_
        rintro latest s ⟨hA, hlt⟩
        refine .bind (P := fun n s => A s ∧ n < s.state.store.count topic)
          (.orRaise (fun n h => ⟨hA, hlt n h⟩) (fun _ _ => hA)) ?_
        rintro n s ⟨hA, hlt⟩
        exact .pure ⟨hA, by omega, fun _ => by omega⟩

/-- A start cursor that subscribe looks up lies below the head if that is asked for. -/
theorem startOffset_safe {topic fromCursor : String} (hj : j.isSubscribe = true)
    (hst : Stable R j i A) (hA : A s) :
    Triple R j i (startOffset topic fromCursor) (fun v s => A s ∧ StartsAt R topic v s) A s := by
  unfold startOffset
  split
  · exact .pure ⟨hA, startsAt_none topic s⟩
  · split
    · exact headOffset_safe hst hA
    · refine .orRaise_bind ?_ (fun _ _ => hA)
      intro cursorTopic htopic
      obtain ⟨o, hsplit, hoff⟩ := Cursor.exists_split htopic
      split
      · rename_i heq
        subst heq
        refine .bind (P := fun _ s => A s ∧ (R.bounded = true → o < s.state.store.count cursorTopic))
          (.call hst hA ?_) ?_
        · intro s c r w' hinv hA hadm hex
          obtain rfl := World.exec_reads rfl hex
          have hq := World.Quiet.refl s.state
          refine ⟨hinv.calm rfl hq.calm,
            guar_of_keeps (.calm rfl hq.calm fun _ => .of_rows_eq rfl (Int.le_refl _)),
            hst _ _ (rely_of_idles (.quiet rfl rfl hq)) hA, fun hb => ?_⟩
          exact hadm rfl hb hj o hsplit
        rintro r s ⟨hA, hbelow⟩
        refine .orRaise_bind (fun _ _ => ?_) (fun _ _ => hA)
        refine .orRaise_bind ?_ (fun _ _ => hA)
        intro n hn
        rw [hoff] at hn
        cases hn
        refine .pure ⟨hA, by omega, fun hb => ?_⟩
        have := hbelow hb
        omega
      · exact headOffset_safe hst hA

theorem getTopics_safe (names : List String) (hst : Stable R j i A) (hA : A s) :
    Triple R j i (getTopics names) (fun _ s => A s) A s := by
  induction names generalizing s with
  | nil => exact .pure hA
  | cons name rest ih =>
    unfold getTopics
    refine .bind (getTopic_safe hst hA fun _ hA _ => hA) ?_
    rintro topic s ⟨hA, _⟩
    exact .bind (ih hA) fun _ s hA => .pure hA

/-- All start positions of a subscription. -/
def StartsAll (R : Regime) (offsets : Dict String Int) (s : Snapshot cfg fuel) : Prop :=
  ∀ topic, StartsAt R topic (offsets.getD topic (-1)) s

theorem StartsAll.interferes {offsets : Dict String Int} {s s' : Snapshot cfg fuel}
    (hr : Interferes R i s s') (h : StartsAll R offsets s) : StartsAll R offsets s' :=
  fun topic => (h topic).interferes hr

theorem startOffsets_safe {fromCursor : String} (hj : j.isSubscribe = true) (topics : List Topic)
    {acc : Dict String Int} (hacc : StartsAll R acc s) :
    Triple R j i (startOffsets fromCursor acc topics) (fun offsets s => StartsAll R offsets s)
      (fun _ => True) s := by
  induction topics generalizing s acc with
  | nil => exact .pure hacc
  | cons topic rest ih =>
    unfold startOffsets
    refine .bind ((startOffset_safe (A := fun s => StartsAll R acc s) hj
      (.of_interferes fun _ _ hr h => h.interferes hr) hacc).mono (fun _ _ h => h)
      (fun _ _ => trivial)) ?_
    rintro v s ⟨hacc, hv⟩
    refine ih fun t => ?_
    by_cases ht : t = topic.name
    · subst ht
      simpa [Dict.getD] using hv
    · simpa [Dict.getD, ht] using hacc t

end A2AEvents
