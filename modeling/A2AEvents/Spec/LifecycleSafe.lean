import A2AEvents.Spec.DispatchSafe

/-!
# The calls of clients

Declaring topics, compaction, the life of a subscription, publishing and replay keep
the invariant and the guarantee of their task. Explicit acks and retries, which do not
take the dispatch lock, are in `A2AEvents.Spec.RetrySafe`.

## Key results

- `subscribe_safe`, `renew_safe`, `delete_safe`: the life of a subscription
- `publish_safe`, `dispatchPending_safe`: the jobs that fork dispatch jobs
-/

namespace A2AEvents

open Async Publisher

variable {cfg : PublisherConfig} {fuel : Nat} {R : Regime} {j : Job} {i : Nat}
  {s s' : Snapshot cfg fuel} {A : Snapshot cfg fuel → Prop}

/-! ## Topics -/

theorem declareTopic_safe {topic : Topic} {E : Snapshot cfg fuel → Prop} :
    Triple R j i (perform (.declareTopic topic)) (fun _ _ => True) E s := by
  refine .calm (A := fun _ => True) rfl rfl (.of_interferes fun _ _ _ h => h) trivial ?_
    (fun _ _ _ _ _ _ _ _ => trivial)
  intro s c r w' hinv _ hex
  simp only [World.exec, Option.some.injEq, Prod.mk.injEq] at hex
  obtain ⟨-, rfl⟩ := hex
  refine ⟨⟨rfl, fun h => h.declareTopic topic, EventStore.grows_declareTopic _ _, ?_,
    fun _ _ => .inl, fun _ row h => ⟨row, h, .refl _⟩, fun _ h => h, fun _ h => h, rfl, rfl, rfl, rfl,
    fun _ h => h, fun _ _ row _ _ h hc => .inl ⟨row, h, hc⟩⟩,
    .of_rows_eq rfl (Int.le_refl _)⟩
  intro name q hq
  simpa [EventStore.events_declareTopic] using hq

theorem compact_safe {topic : Option String} {E : Snapshot cfg fuel → Prop} :
    Triple R j i (perform (.compact topic)) (fun _ _ => True) E s := by
  refine .calm (A := fun _ => True) rfl rfl (.of_interferes fun _ _ _ h => h) trivial ?_
    (fun _ _ _ _ _ _ _ _ => trivial)
  intro s c r w' hinv _ hex
  simp only [World.exec, Option.some.injEq, Prod.mk.injEq] at hex
  obtain ⟨-, rfl⟩ := hex
  refine ⟨⟨rfl, fun h => h.compact _ _, EventStore.grows_compact _ _ _, ?_,
    fun _ _ => .inl, fun _ row h => ⟨row, h, .refl _⟩, fun _ h => h, fun _ h => h, rfl, rfl, rfl, rfl,
    fun _ h => h, fun _ _ row _ _ h hc => .inl ⟨row, h, hc⟩⟩,
    .of_rows_eq rfl (Int.le_refl _)⟩
  intro name q hq
  exact EventStore.mem_events_compact hq

/-! ## Publishing -/

/-- Forked dispatch jobs find the subscriptions they were made for. -/
theorem gatherDispatch_safe (hj : R.exclusive j = false) {hs : List Handle}
    {topics : Option (List String)} (hh : ∀ h ∈ hs, Refers h s) :
    Triple R j i (gatherDispatch hs topics) (fun _ _ => True) (fun _ => True) s := by
  intro s₁ hr _
  refine ⟨?_, fun ids s₂ _ _ r => ?_⟩
  · intro j' hj'
    obtain ⟨h, hmem, rfl⟩ := List.mem_map.mp hj'
    exact ⟨(hh h hmem).grows (interferes_of_rely hr).toGrows, hj, rfl⟩
  · cases r <;> trivial

theorem dispatchTopic_safe (hj : R.exclusive j = false) {topic : String} :
    Triple R j i (dispatchTopic topic) (fun _ _ => True) (fun _ => True) s := by
  unfold dispatchTopic
  refine .bind (listAll_safe (A := fun _ => True) (.const True) trivial) ?_
  rintro hs s ⟨_, hh⟩
  refine .bind (gatherDispatch_safe hj fun h hmem => hh h (List.mem_of_mem_filter hmem)) ?_
  exact fun _ _ _ => .pure trivial

theorem publish_safe (hj : R.exclusive j = false) {topic type : String}
    {data : List (String × Json)} {subject : Option String} :
    Triple R j i (publish cfg topic type data subject) (fun _ _ => True) (fun _ => True) s := by
  unfold publish
  refine .bind (P := fun _ _ => True) (.call (A := fun _ => True) (.const True) trivial ?_) ?_
  · intro s c r w' hinv _ _ hex
    exact ⟨hinv.append hex, guar_of_keeps (.append hex), trivial⟩
  · intro r s _
    refine .orRaise_bind (fun record _ => ?_) (fun _ _ => trivial)
    refine .bind (P := fun _ _ => True) ?_ (fun _ _ _ => .pure trivial)
    split
    · exact dispatchTopic_safe hj
    · exact .pure trivial

theorem dispatchPending_safe (hj : R.exclusive j = false) :
    Triple R j i dispatchPending (fun _ _ => True) (fun _ => True) s := by
  unfold dispatchPending
  refine .bind (listAll_safe (A := fun _ => True) (.const True) trivial) ?_
  rintro hs s ⟨_, hh⟩
  refine .bind (gatherDispatch_safe hj fun h hmem => hh h (List.mem_of_mem_filter hmem)) ?_
  exact fun _ _ _ => .pure trivial

/-! ## Subscribing -/

theorem checkSubscriptionQuota_safe {url : String} (hst : ∀ s s', Interferes R i s s' → A s → A s')
    (hA : A s) :
    Triple R j i (checkSubscriptionQuota cfg url) (fun _ s => A s) (fun _ => True) s := by
  unfold checkSubscriptionQuota
  split
  · exact .pure hA
  · refine .bind (listSubscriptions_safe hst hA) ?_
    intro hs s hA
    simp only
    split
    · exact .orRaise (fun _ h => (by cases h)) (fun _ _ => trivial)
    · exact .pure hA

theorem checkSubscribe_safe {req : SubscribeRequest} {topics : List String}
    (hst : ∀ s s', Interferes R i s s' → A s → A s') (hA : A s) :
    Triple R j i (checkSubscribe cfg req topics)
      (fun _ s => A s) (fun _ => True) s := by
  have hraise : ∀ {s : Snapshot cfg fuel} (x : Except PyError Unit), A s →
      Triple R j i (orRaise x) (fun _ s => A s) (fun _ => True) s :=
    fun x hA => .orRaise (fun _ _ => hA) (fun _ _ => trivial)
  have hask : ∀ {s : Snapshot cfg fuel} (o : Op), o.reads = true → o.takesUp = false → A s →
      Triple R j i (perform o) (fun _ s => A s) (fun _ => True) s :=
    fun o ho ht hA => .look ho ht (.of_interferes hst) hA
  unfold checkSubscribe
  refine .bind (P := fun _ s => A s) ?_ ?_
  · split
    · exact .bind (hask _ rfl rfl hA) fun r s hA => hraise r hA
    · exact .pure hA
  intro _ s hA
  refine .bind (P := fun _ s => A s) ?_ ?_
  · split
    · exact hraise _ hA
    · exact .pure hA
  intro _ s hA
  refine .bind (hask _ rfl rfl hA) fun r s hA => ?_
  refine .bind (hraise r hA) fun _ s hA => ?_
  refine .bind (checkSubscriptionQuota_safe hst hA) fun _ s hA => ?_
  refine .orRaise_bind (fun card _ => ?_) (fun _ _ => trivial)
  refine .bind (hraise _ hA) fun _ s hA => ?_
  refine .orRaise_bind (fun resolved _ => ?_) (fun _ _ => trivial)
  refine .bind ((getTopics_safe topics (.of_interferes hst) hA).mono (fun _ _ h => h)
    (fun _ _ => trivial)) ?_
  intro models s hA
  exact .bind (hraise _ hA) fun _ s hA => .pure hA

/-- A new subscription: nothing was sent to it and nobody holds its lock. -/
theorem add_safe {sub : Subscription} {offsets : Dict String Int} {E : Snapshot cfg fuel → Prop}
    (hcursors : sub.cursors = ∅) (hstart : StartsAll R offsets s) :
    Triple R j i (perform (.add sub offsets)) (fun h s => Refers h s) E s := by
  refine .call (A := fun s => StartsAll R offsets s)
    (.of_interferes fun _ _ hr h => h.interferes hr) hstart ?_
  intro s c r w' hinv hstart _ hex
  obtain ⟨hnone, rfl, rfl⟩ := World.add_of_exec hex
  have hlow : R.monotone = true → ∀ topic, -1 ≤ offsets.getD topic (-1) :=
    fun _ topic => (hstart topic).1
  refine ⟨hinv.add hnone hlow fun hb => ⟨hcursors, fun topic => (hstart topic).2 hb⟩,
    guar_of_keeps (.add hinv hnone hlow), sub, ?_, .refl _⟩
  simp [SubscriptionStore.add]

theorem subscribe_safe (hfit : R.Fits cfg) (hj : j.isSubscribe = true) {rounds : Nat}
    {req : SubscribeRequest} :
    Triple R j i (subscribe cfg rounds req) (fun _ _ => True) (fun _ => True) s := by
  unfold subscribe
  refine .orRaise_bind (fun _ _ => ?_) (fun _ _ => trivial)
  refine .bind (checkSubscribe_safe (A := fun _ => True) (fun _ _ _ h => h) trivial) ?_
  rintro ⟨resolved, models⟩ s _
  refine .bind (.look (A := fun _ => True) rfl rfl (.const True) trivial) ?_
  intro now s _
  refine .bind (uuid_safe (A := fun _ => True) (.const True) trivial) ?_
  intro hex s _
  refine .bind (startOffsets_safe hj models fun topic => startsAt_none topic s) ?_
  intro offsets s hstart
  refine .bind (add_safe rfl hstart) ?_
  intro h s hh
  refine .bind (P := fun _ s => Refers h s) ?_ ?_
  · split
    · refine .bind (((dispatchSubscription_safe hfit hh).frame (A := fun s => Refers h s)
        (fun _ _ hg h => h.grows hg) hh).mono (fun _ _ h => h.2) (fun _ _ => trivial)) ?_
      exact fun _ s hh => .pure hh
    · exact .pure hh
  · intro _ s hh
    exact .bind (deref_safe (A := fun _ => True) (.const True) trivial hh)
      fun _ _ _ => .pure trivial

/-! ## Renewing, deleting, replaying -/

/-- Reviving a subscription. -/
private theorem revive_safe (hj : R.gated = true → R.exclusive j = true) {h : Handle} {e : Edit}
    {E : Snapshot cfg fuel → Prop} (hfits : e.Fits R s) (hh : Refers h s) :
    Triple R j i (perform (.assign h e)) (fun h' s => Refers h' s) E s := by
  refine .callLocal rfl ?_
  intro c r w' hinv hex
  simp only [World.exec, Option.some.injEq, Prod.mk.injEq] at hex
  obtain ⟨rfl, rfl⟩ := hex
  have hcalm := World.Calm.assign (R := R) (s := s) (h := h) hfits
  refine ⟨hinv.calm rfl hcalm, ?_, (hh.grows (R := R) (.calm rfl hcalm)).alike (hh.assign e)⟩
  cases hg : R.gated with
  | true =>
    simp only [contract, hj hg, if_true]
    exact .calm rfl hcalm
  | false => exact guar_of_keeps (.calm rfl hcalm fun hg' => (by cases (hg.symm.trans hg')))

/-- Renewing revives a subscription: where sends have to be admitted, nothing runs beside it. -/
theorem renew_safe (hj : R.gated = true → R.exclusive j = true) {id : String} {lease : Int} :
    Triple R j i (renew cfg id lease) (fun _ _ => True) (fun _ => True) s := by
  unfold renew
  refine .orRaise_bind (fun _ _ => ?_) (fun _ _ => trivial)
  refine .bind (getSubscription_safe (A := fun _ => True) (B := fun _ _ => True) (.const True)
    (fun _ => .of_interferes fun _ _ _ h => h) trivial (fun _ _ _ _ _ _ _ _ => trivial)) ?_
  rintro h s ⟨_, ⟨_, _, hh, _⟩, _⟩
  refine .bind (.look (A := fun s => Refers h s) rfl rfl firm_refers.stable hh) ?_
  intro now s hh
  refine .bind (revive_safe hj trivial hh) ?_
  intro h₁ s hh
  refine .bind (revive_safe hj trivial hh) ?_
  intro h₂ s _
  exact .bind (update_safe (A := fun _ => True) (.of_interferes fun _ _ _ h => h) trivial)
    fun _ _ _ => .pure trivial

theorem delete_safe {id : String} :
    Triple R j i (delete id) (fun _ _ => True) (fun _ => True) s := by
  unfold delete
  refine .bind (P := fun r s => ∀ h, r = some h → Refers h s)
    (.call (A := fun _ => True) (.const True) trivial ?_) ?_
  · intro s c r w' hinv _ _ hex
    obtain rfl := World.exec_reads rfl hex
    have hq := World.Quiet.refl s.state
    refine ⟨hinv.calm rfl hq.calm, guar_of_keeps (.calm rfl hq.calm fun _ => .of_rows_eq rfl (Int.le_refl _)), ?_⟩
    simp only [World.exec, Option.some.injEq, Prod.mk.injEq, and_true] at hex
    intro h hr
    exact refers_of_get hinv (hex.trans hr)
  · rintro (_ | h) s hr
    · exact .pure trivial
    · refine .bind (P := fun _ _ => True) (assign_safe (hr h rfl) trivial ?_ ?_) ?_
      · simp [Edit.Tame]
      · exact fun _ _ _ _ _ _ => trivial
      · intro h₁ s _
        exact .bind (update_safe (A := fun _ => True) (.of_interferes fun _ _ _ h => h) trivial)
          fun _ _ _ => .pure trivial

theorem replay_safe {id : String} {from_ to_ : Option String} {limit : Int} :
    Triple R j i (replay cfg id from_ to_ limit) (fun _ _ => True) (fun _ => True) s := by
  unfold replay
  refine .bind (getActiveSubscription_safe (A := fun _ => True) (B := fun _ _ => True) (.const True)
    (fun _ => .of_interferes fun _ _ _ h => h) trivial (fun _ _ _ _ _ _ _ _ => trivial)) ?_
  intro h s _
  refine .orRaise_bind (fun topic _ => ?_) (fun _ _ => trivial)
  split
  · exact .orRaise (fun _ h => (by cases h)) (fun _ _ => trivial)
  refine .bind (getTopic_safe (A := fun _ => True) (.const True) trivial fun _ _ _ => trivial) ?_
  intro model s _
  split
  · exact .orRaise (fun _ h => (by cases h)) (fun _ _ => trivial)
  refine .bind (.look (A := fun _ => True) rfl rfl (.const True) trivial) ?_
  intro r s _
  refine .orRaise_bind (fun page _ => ?_) (fun _ _ => trivial)
  exact .orRaise_bind (fun _ _ => .pure trivial) (fun _ _ => trivial)

end A2AEvents
