import A2AEvents.ForStd.Eval
import A2AEvents.Spec.CallRules
import A2AEvents.Spec.SigningCorrect

/-!
# Calls that run alone

What the methods of a publisher do when nothing interrupts them and the transport follows a
script: the `n`-th send of the history is answered by the `n`-th reply.

## Key results

- `getActiveSubscription_eval`: an active subscription is found as it is
- `attemptSend_eval`: one attempt is answered by the script
- `recordAttempt_eval`: an attempt is written down
-/

namespace A2AEvents

open Async Publisher

variable {cfg : PublisherConfig} {fuel : Nat}

/-- The program, run alone over a scripted transport, ends with a result. -/
abbrev Evals {α : Type} (reply : Nat → Choice) (i : Nat) (p : M α) (s : Snapshot cfg fuel)
    (res : Except PyError α) (s' : Snapshot cfg fuel) : Prop :=
  Eval (sem cfg fuel).traced i (fun s _ c => c = reply (sendCount s.trace)) p s res s'

section

variable {α β : Type} {reply : Nat → Choice} {i : Nat} {s s' s₁ : Snapshot cfg fuel}

/-- Perform a call and go on. -/
theorem Evals.call {o : Op} {f : o.Res → M α} {r : o.Res} {w : World} {res : Except PyError α}
    (hex : World.exec i o (reply (sendCount s.trace)) s.state = some (r, w))
    (hrest : Evals reply i (f r) (s.next i o r w) res s') :
    Evals reply i (perform o >>= f) s res s' :=
  .op _ rfl (by simp [hex, Snapshot.next]) hrest

/-- Perform a last call. -/
theorem Evals.last {o : Op} {r : o.Res} {w : World}
    (hex : World.exec i o (reply (sendCount s.trace)) s.state = some (r, w)) :
    Evals reply i (perform o) s (.ok r) (s.next i o r w) :=
  .op _ rfl (by simp [hex, Snapshot.next]) (.pure r _)

/-- A computation that does not raise. -/
theorem Evals.lift {x : Except PyError α} {a : α} {f : α → M β} {res : Except PyError β}
    (hx : x = .ok a) (hrest : Evals reply i (f a) s res s') :
    Evals reply i (orRaise x >>= f) s res s' := by
  subst hx
  exact hrest

/-- A script leaves nothing open. -/
theorem Evals.det {p : M α} {res res' : Except PyError α} {s'' : Snapshot cfg fuel}
    (hp : Evals reply i p s res s') (hp' : Evals reply i p s res' s'') : res = res' ∧ s' = s'' :=
  Eval.det (fun _ _ _ _ h h' => h.trans h'.symm) hp hp'

/-- What the history shows of calls other than sends. -/
structure Quiet (s s' : Snapshot cfg fuel) : Prop where
  count : sendCount s'.trace = sendCount s.trace
  sends : ∀ id topic, sends s'.trace id topic = sends s.trace id topic

theorem Quiet.refl (s : Snapshot cfg fuel) : Quiet s s := ⟨rfl, fun _ _ => rfl⟩

theorem Quiet.trans (h : Quiet s s₁) (h' : Quiet s₁ s') : Quiet s s' :=
  ⟨h'.count.trans h.count, fun id topic => (h'.sends id topic).trans (h.sends id topic)⟩

theorem Quiet.next {o : Op} {r : o.Res} {w : World} (h : Quiet s s₁)
    (ho : Entry.isSend (⟨i, o, r, s₁.state⟩ : Entry cfg fuel) = false) :
    Quiet s (s₁.next i o r w) := by
  refine h.trans ⟨?_, fun id topic => ?_⟩
  · simp [ho]
  · rw [Snapshot.next_trace, sends_concat]
    cases o <;> simp_all [Entry.isSend, Entry.sent?]

/-- The history after attempt `n` of an event at offset `o`. -/
structure Sent (h : Handle) (record : EventRecord) (o n : Nat) (s s' : Snapshot cfg fuel) : Prop where
  count : sendCount s'.trace = sendCount s.trace + 1
  sends : ∀ id topic, sends s'.trace id topic = sends s.trace id topic ++
    if h.sub.subscriptionId = id ∧ record.topic = topic then [(o, n)] else []

theorem Sent.quiet {h : Handle} {record : EventRecord} {o n : Nat} (hs : Sent h record o n s s₁)
    (hq : Quiet s₁ s') : Sent h record o n s s' :=
  ⟨hq.count.trans hs.count, fun id topic => (hq.sends id topic).trans (hs.sends id topic)⟩

theorem Quiet.sent {h : Handle} {record : EventRecord} {o n : Nat} {frame : Frame}
    {r : (Op.send h.sub record n frame).Res} {w : World} (hq : Quiet s s₁)
    (hoff : Cursor.offsetOf record.cursor = .ok o) :
    Sent h record o n s (s₁.next i (.send h.sub record n frame) r w) := by
  refine ⟨?_, fun id topic => ?_⟩
  · rw [Snapshot.next_trace, sendCount_concat, hq.count]
    rfl
  · rw [Snapshot.next_trace, sends_concat, hq.sends]
    congr 1
    simp only [Entry.sent?, hoff]
    split <;> rfl

/-- A page of the log. -/
theorem exec_read {w : World} {c : Choice} {topic : String} {from_ to_ : Option String} {limit : Int}
    {r : Except PyError (List EventRecord × Option String)}
    (h : w.store.read w.clock topic from_ to_ limit = r) :
    World.exec i (.read topic from_ to_ limit) c w = some (r, w) := by
  rw [← h]
  rfl

/-- A running lease is left alone. -/
theorem expireAndPersist_eval (reply : Nat → Choice) (i : Nat) {h : Handle}
    (hh : s.state.subs.deref h = h) (hlease : s.state.clock < h.sub.leaseUntil) :
    ∃ s', Evals reply i (expireAndPersist h) s (.ok h) s' ∧ s'.state = s.state ∧ Quiet s s' := by
  have hderef : ∀ c, World.exec i (.deref h) c s.state = some (h, s.state) := fun c => by
    simp [World.exec, hh]
  have hdue : ¬ (h.sub.status = .active ∧ h.sub.leaseUntil ≤ s.state.clock) :=
    fun hd => absurd hlease (Int.not_lt.mpr hd.2)
  let s₂ := (s.next i (.deref h) h s.state).next i .now s.state.clock s.state
  have hexpire : Evals reply i (expireIfDue h) s (.ok (false, h)) s₂ := by
    refine .call (hderef _) (.call rfl ?_)
    split
    · rename_i hd
      exact absurd hd hdue
    · exact .pure _ _
  exact ⟨s₂, hexpire.bind (.pure h _), rfl, ((Quiet.refl s).next rfl).next rfl⟩

/-- An active subscription whose lease is running. -/
theorem isActive_eval (reply : Nat → Choice) (i : Nat) {h : Handle}
    (hh : s.state.subs.deref h = h) (hactive : h.sub.status = .active)
    (hlease : s.state.clock < h.sub.leaseUntil) :
    ∃ s', Evals reply i (isActive h) s (.ok (true, h)) s' ∧ s'.state = s.state ∧ Quiet s s' := by
  obtain ⟨s₁, hexpire, hs₁, hq⟩ := expireAndPersist_eval reply i hh hlease
  have hderef : World.exec i (.deref h) (reply (sendCount s₁.trace)) s₁.state = some (h, s₁.state) := by
    simp [World.exec, hs₁, hh]
  refine ⟨s₁.next i (.deref h) h s₁.state, hexpire.bind (Evals.call hderef ?_), hs₁, hq.next rfl⟩
  rw [hactive]
  exact .pure _ _

/-- The subscription that a call is about. -/
theorem getActiveSubscription_eval (reply : Nat → Choice) (i : Nat) {id : String} {sub : Subscription}
    (hrow : s.state.subs.rows.get? id = some sub) (hh : s.state.subs.deref ⟨sub, sub⟩ = ⟨sub, sub⟩)
    (hactive : sub.status = .active) (hlease : s.state.clock < sub.leaseUntil) :
    ∃ s', Evals reply i (getActiveSubscription id) s (.ok ⟨sub, sub⟩) s' ∧ s'.state = s.state ∧ Quiet s s' := by
  let h : Handle := ⟨sub, sub⟩
  have hget : World.exec i (.get id) (reply (sendCount s.trace)) s.state = some (some h, s.state) := by
    simp [World.exec, SubscriptionStore.get, hrow, h]
  obtain ⟨s₂, hexpire, hs₂, hq⟩ := expireAndPersist_eval (s := s.next i (.get id) (some h) s.state) reply i hh hlease
  have hderef : World.exec i (.deref h) (reply (sendCount s₂.trace)) s₂.state = some (h, s₂.state) := by
    rw [hs₂]
    simp [World.exec, hh, h]
  have hfound : Evals reply i (getSubscription id) s (.ok h) s₂ := by
    refine .call hget ?_
    show Evals reply i (if sub.status = .deleted then _ else expireAndPersist h) _ _ _
    rw [if_neg (by rw [hactive]; decide)]
    exact hexpire
  refine ⟨s₂.next i (.deref h) h s₂.state, hfound.bind (Evals.call hderef ?_), hs₂,
    (((Quiet.refl s).next rfl).trans hq).next rfl⟩
  rw [if_neg (not_not.mpr hactive)]
  exact .pure _ _

/-- A topic that is known. -/
theorem getTopic_eval {name : String} {topic : Topic} {f : Topic → M α} {res : Except PyError α}
    (hcached : s.state.topics.get? name = some topic)
    (hrest : Evals reply i (f topic) (s.next i (.cachedTopic name) (some topic) s.state) res s') :
    Evals reply i (getTopic name >>= f) s res s' := by
  have hex : World.exec i (.cachedTopic name) (reply (sendCount s.trace)) s.state =
      some (some topic, s.state) := by
    simp [World.exec, hcached]
  have hget : Evals reply i (getTopic name) s (.ok topic) (s.next i (.cachedTopic name) (some topic)
      s.state) := Evals.call hex (.pure _ _)
  exact hget.bind hrest

private theorem send_eval {sub : Subscription} {record : EventRecord} {n : Nat} {frame : Frame}
    {result : Except PyError DeliveryResult} (hreply : (reply (sendCount s.trace)).result = result) :
    Evals reply i (perform (.send sub record n frame) >>= fun r => orRaise r) s result
      (s.next i (.send sub record n frame) result s.state) := by
  have hex : World.exec i (.send sub record n frame) (reply (sendCount s.trace)) s.state =
      some (result, s.state) := by
    simp [World.exec, hreply]
  exact Evals.call hex (Eval.lift_iff.mpr ⟨rfl, rfl⟩)

/-- One attempt is answered by the script. -/
theorem attemptSend_eval (reply : Nat → Choice) (i : Nat) (h : Handle) {record : EventRecord}
    {topic : Topic} {n o : Nat} {result : Except PyError DeliveryResult}
    (hcached : s.state.topics.get? record.topic = some topic)
    (hdata : ∃ bytes, canonicalize (.obj record.data) = .ok bytes)
    (hoff : Cursor.offsetOf record.cursor = .ok o) (hn : n < 10 ^ Cursor.maxStrDigits)
    (hreply : (reply (sendCount s.trace)).result = result) :
    ∃ s' k, Evals reply i (attemptSend cfg h record n) s result s' ∧
      s'.state = { s.state with uuids := k } ∧ s.state.uuids ≤ k ∧ Sent h record o n s s' := by
  obtain ⟨bytes, hbytes⟩ := hdata
  obtain ⟨bytes', hevent⟩ := canonicalize_buildEvent cfg h.sub topic.schemaUrl hbytes hn
  obtain ⟨signature, hsign⟩ := cfg.signingKey.sign_ok (cfg.isoformat record.createdAt) hevent
  have hquiet : Quiet s ((s.next i (.cachedTopic record.topic) (some topic) s.state).next i .uuid
      (uuidHex s.state.uuids) { s.state with uuids := s.state.uuids + 1 }) :=
    (Quiet.next (.refl s) rfl).next rfl
  rw [← hquiet.count] at hreply
  exact ⟨_, _, getTopic_eval hcached (.lift hsign (.call rfl (send_eval hreply))), rfl,
    Nat.le_succ _, hquiet.sent hoff⟩

/-- An attempt is written down. -/
theorem recordAttempt_eval (reply : Nat → Choice) (i : Nat) (s : Snapshot cfg fuel) (h : Handle)
    (record : EventRecord) (n : Nat) (status : AttemptStatus) (result : DeliveryResult) :
    ∃ s' k attempt, Evals reply i (recordAttempt h record n status result) s (.ok ()) s' ∧
      s'.state = { s.state with uuids := k, subs := s.state.subs.recordAttempt attempt } ∧
      s.state.uuids ≤ k ∧ attempt.attempt = n ∧ attempt.status = status ∧
      attempt.subscriptionId = h.sub.subscriptionId ∧ attempt.eventId = record.eventId ∧
      attempt.cursor = record.cursor ∧ Quiet s s' := by
  refine ⟨_, _, _, .call rfl (.last rfl), rfl, Nat.le_succ _, rfl, rfl, rfl, rfl, rfl, ?_⟩
  exact (Quiet.next (.refl s) rfl).next rfl

end

end A2AEvents
