import A2AEvents.Spec.Evaluation

/-!
# Deliveries that run alone

What becomes of an event that is handed to a subscription while nothing else happens: its
course is determined by the replies of the transport and the allowed number of attempts.

## Key results

- `course`: the attempts of an inline delivery and how it ends
- `course_ends`, `course_raises_iff`: a success, a dead letter, or an exception after too many failures
- `deliverInline_eval`, `deliverQueued_eval`, `deliverOne_eval`: deliveries follow their course
-/

namespace A2AEvents

open Async Publisher

variable {cfg : PublisherConfig} {fuel : Nat}

/-! ## Courses -/

/-- How the delivery of an event ends. -/
inductive Ending where
  | delivered
  | deadLettered
  | queued
  | untried
  | raised (e : PyError)

/-- The attempts that are written down, the number of sends, and the end. -/
structure Course where
  log : List (Nat × AttemptStatus)
  sends : Nat
  ending : Ending

/-- The course of the inline attempts from number `n` on, of which the first is answered by reply
    `base`. -/
def course (cfg : PublisherConfig) (reply : Nat → Choice) (base n : Nat) : Nat → Course
  | 0 => ⟨[], 0, .untried⟩
  | remaining + 1 =>
    match (reply base).result with
    | .error e => ⟨[], 1, .raised e⟩
    | .ok result =>
      if result.ack then ⟨[(n, .delivered)], 1, .delivered⟩
      else if !result.retry || (n : Int) = cfg.maxAttempts then ⟨[(n, .deadLetter)], 1, .deadLettered⟩
      else
        match backoffDelay cfg n with
        | .error e => ⟨[(n, .retry)], 1, .raised e⟩
        | .ok _ =>
          let rest := course cfg reply (base + 1) (n + 1) remaining
          ⟨(n, .retry) :: rest.log, rest.sends + 1, rest.ending⟩

/-- The course of a delivery that leaves retries to the queue. -/
def firstCourse (cfg : PublisherConfig) (reply : Nat → Choice) (base : Nat) : Course :=
  match (reply base).result with
  | .error e => ⟨[], 1, .raised e⟩
  | .ok result =>
    if result.ack then ⟨[(1, .delivered)], 1, .delivered⟩
    else if !result.retry || cfg.maxAttempts ≤ 1 then ⟨[(1, .deadLetter)], 1, .deadLettered⟩
    else ⟨[(1, .retry)], 1, .queued⟩

/-- The course of a delivery. -/
def delivery (cfg : PublisherConfig) (reply : Nat → Choice) (base : Nat) : Course :=
  if cfg.retryQueue then firstCourse cfg reply base
  else course cfg reply base 1 cfg.maxAttempts.toNat

/-- The transport reports a failure after which it may be asked again. -/
def Choice.Retryable (c : Choice) : Prop :=
  ∃ result, c.result = .ok result ∧ result.ack = false ∧ result.retry = true

section

variable {reply : Nat → Choice}

/-- The course of the attempts from number `n` on up to the last one ends with a success or a dead letter,
    unless it ends with an exception. -/
theorem course_ends (hreply : ∀ m, ∃ result, (reply m).result = .ok result) (remaining : Nat) :
    ∀ {base n : Nat}, 0 < remaining → (n : Int) + remaining = cfg.maxAttempts + 1 →
      (∀ e, (course cfg reply base n remaining).ending ≠ .raised e) →
      ∃ k last, (course cfg reply base n remaining).log =
          (List.range' n k).map (fun m => (m, AttemptStatus.retry)) ++ [(n + k, last)] ∧
        ((course cfg reply base n remaining).ending = .delivered ∧ last = .delivered ∨
          (course cfg reply base n remaining).ending = .deadLettered ∧ last = .deadLetter) := by
  induction remaining with
  | zero =>
    intro base n hpos
    exact absurd hpos (Nat.lt_irrefl 0)
  | succ remaining ih =>
    intro base n _ hsum hno
    obtain ⟨result, hresult⟩ := hreply base
    unfold course at hno ⊢
    rw [hresult] at hno ⊢
    simp only at hno ⊢
    by_cases hack : result.ack = true
    · rw [if_pos hack]
      exact ⟨0, .delivered, rfl, .inl ⟨rfl, rfl⟩⟩
    rw [if_neg hack] at hno ⊢
    by_cases hlast : (!result.retry || decide ((n : Int) = cfg.maxAttempts)) = true
    · rw [if_pos hlast]
      exact ⟨0, .deadLetter, rfl, .inr ⟨rfl, rfl⟩⟩
    rw [if_neg hlast] at hno ⊢
    cases hdelay : backoffDelay cfg n with
    | error e =>
      rw [hdelay] at hno
      exact absurd rfl (hno e)
    | ok delay =>
      rw [hdelay] at hno
      -- the last attempt is never followed by another one
      have hmore : 0 < remaining := by
        simp only [Bool.or_eq_true, decide_eq_true_eq, not_or] at hlast
        omega
      obtain ⟨k, last, hlog, hend⟩ := ih hmore (by omega) hno
      refine ⟨k + 1, last, ?_, hend⟩
      show (n, AttemptStatus.retry) :: (course cfg reply (base + 1) (n + 1) remaining).log = _
      rw [hlog, List.range'_succ, List.map_cons, List.cons_append, Nat.add_right_comm n 1 k, Nat.add_assoc]

/-- The course ends with an exception exactly if attempt 1025 is made, fails, and is not the last one. -/
theorem course_raises_iff (hreply : ∀ m, ∃ result, (reply m).result = .ok result) (remaining : Nat) :
    ∀ {base n : Nat}, n ≤ 1025 → (n : Int) + remaining = cfg.maxAttempts + 1 →
      ((∃ e, (course cfg reply base n remaining).ending = .raised e) ↔
        1025 < cfg.maxAttempts ∧ ∀ m, n + m ≤ 1025 → (reply (base + m)).Retryable) := by
  induction remaining with
  | zero =>
    intro base n hn hsum
    constructor
    · rintro ⟨e, he⟩
      cases he
    · rintro ⟨hlarge, -⟩
      omega
  | succ remaining ih =>
    intro base n hn hsum
    obtain ⟨result, hresult⟩ := hreply base
    have hfirst : (∀ m, n + m ≤ 1025 → (reply (base + m)).Retryable) →
        result.ack = false ∧ result.retry = true := by
      intro hall
      obtain ⟨result', hresult', hack, hretry⟩ := hall 0 hn
      rw [Nat.add_zero, hresult] at hresult'
      cases hresult'
      exact ⟨hack, hretry⟩
    unfold course
    rw [hresult]
    simp only
    by_cases hack : result.ack = true
    · rw [if_pos hack]
      constructor
      · rintro ⟨e, he⟩
        cases he
      · rintro ⟨-, hall⟩
        rw [(hfirst hall).1] at hack
        cases hack
    rw [if_neg hack]
    by_cases hlast : (!result.retry || decide ((n : Int) = cfg.maxAttempts)) = true
    · rw [if_pos hlast]
      constructor
      · rintro ⟨e, he⟩
        cases he
      · rintro ⟨hlarge, hall⟩
        rw [(hfirst hall).2] at hlast
        simp only [Bool.not_true, Bool.false_or, decide_eq_true_eq] at hlast
        omega
    rw [if_neg hlast]
    simp only [Bool.or_eq_true, Bool.not_eq_true', decide_eq_true_eq, not_or, Bool.not_eq_false] at hlast
    have hself : (reply base).Retryable := ⟨result, hresult, by simpa using hack, hlast.1⟩
    by_cases hsmall : n ≤ 1024
    · have hdelay : backoffDelay cfg n = .ok (min (cfg.retryInitialDelay * 2 ^ (n - 1)) cfg.retryMaxDelay) :=
        if_pos (by omega)
      rw [hdelay]
      simp only
      rw [ih (by omega) (by omega)]
      refine and_congr_right fun _ => ⟨fun hall m hm => ?_, fun hall m hm => ?_⟩
      · cases m with
        | zero => exact hself
        | succ m =>
          have := hall m (by omega)
          rwa [Nat.add_assoc, Nat.add_comm 1 m] at this
      · rw [Nat.add_assoc, Nat.add_comm 1 m]
        exact hall (m + 1) (by omega)
    · obtain rfl : n = 1025 := by omega
      have hdelay : backoffDelay cfg 1025 = .error (.other "OverflowError") := if_neg (by decide)
      rw [hdelay]
      refine ⟨fun _ => ⟨by omega, fun m hm => ?_⟩, fun _ => ⟨_, rfl⟩⟩
      obtain rfl : m = 0 := by omega
      exact hself

end

/-! ## Objects in hand -/

/-- The task holds the row as it is. -/
structure Held (h : Handle) (w : World) : Prop where
  row : w.subs.rows.get? h.sub.subscriptionId = some h.sub
  base : h.base = h.sub

theorem Held.deref {h : Handle} {w : World} (hh : Held h w) : w.subs.deref h = h := by
  unfold SubscriptionStore.deref
  cases w.subs.backend with
  | copies => rfl
  | live =>
    obtain ⟨sub, base⟩ := h
    obtain rfl : base = sub := hh.base
    rw [hh.row]

/-- The subscription after a delivery moved its acked cursor. -/
def Subscription.ackedAt (sub : Subscription) (topic cursor : String) : Subscription :=
  if isNewer cursor (sub.cursors.get? topic) then { sub with cursors := sub.cursors.set topic cursor }
  else sub

/-- Apart from one subscription's attempts, acks, acked cursors and position in one topic, and from
    the retry queue, nothing has changed. -/
structure Elsewhere (id topic : String) (w w' : World) : Prop where
  clock : w'.clock = w.clock
  store : w'.store = w.store
  topics : w'.topics = w.topics
  locks : w'.locks = w.locks
  authorizer : w'.authorizer = w.authorizer
  backend : w'.subs.backend = w.subs.backend
  uuids : w.uuids ≤ w'.uuids
  rows : ∀ id', id' ≠ id → w'.subs.rows.get? id' = w.subs.rows.get? id'
  positions : ∀ id' topic', ¬ (id' = id ∧ topic' = topic) →
    w'.subs.position id' topic' = w.subs.position id' topic'

theorem Elsewhere.refl (id topic : String) (w : World) : Elsewhere id topic w w :=
  ⟨rfl, rfl, rfl, rfl, rfl, rfl, Nat.le_refl _, fun _ _ => rfl, fun _ _ _ => rfl⟩

theorem Elsewhere.trans {id topic : String} {w w' w'' : World} (h : Elsewhere id topic w w')
    (h' : Elsewhere id topic w' w'') : Elsewhere id topic w w'' where
  clock := h'.clock.trans h.clock
  store := h'.store.trans h.store
  topics := h'.topics.trans h.topics
  locks := h'.locks.trans h.locks
  authorizer := h'.authorizer.trans h.authorizer
  backend := h'.backend.trans h.backend
  uuids := Nat.le_trans h.uuids h'.uuids
  rows := fun id' hne => (h'.rows id' hne).trans (h.rows id' hne)
  positions := fun id' topic' hne => (h'.positions id' topic' hne).trans (h.positions id' topic' hne)

/-- New retries find their id unused. -/
def RetryIdsFresh (w : World) : Prop :=
  ∀ n, w.uuids ≤ n → w.queue.items.get? ("rty_" ++ uuidHex n) = none

private theorem digitChar_inj {a b : Nat} (ha : a < 16) (hb : b < 16)
    (h : a.digitChar = b.digitChar) : a = b := by
  have hall : ∀ a b : Fin 16, a.val.digitChar = b.val.digitChar → a = b := by decide
  exact congrArg Fin.val (hall ⟨a, ha⟩ ⟨b, hb⟩ h)

/-- Two digits or more are not one digit. -/
private theorem one_lt_length (n : Nat) {c d : Char} :
    [c].length ≠ (Nat.toDigits 16 n ++ [d]).length := by
  have := Nat.length_toDigits_pos (b := 16) (n := n)
  rw [List.length_append, List.length_singleton, List.length_singleton]
  omega

private theorem toDigits_inj (a : Nat) : ∀ b, Nat.toDigits 16 a = Nat.toDigits 16 b → a = b := by
  induction a using Nat.strong_induction_on with
  | _ a ih =>
    intro b h
    rw [Nat.toDigits_eq_if (by decide), Nat.toDigits_eq_if (n := b) (by decide)] at h
    split at h <;> split at h
    · rename_i ha hb
      exact digitChar_inj ha hb (List.singleton_inj.mp h)
    · exact absurd (congrArg List.length h) (one_lt_length (b / 16))
    · exact absurd (congrArg List.length h).symm (one_lt_length (a / 16))
    · rename_i ha hb
      obtain ⟨hdiv, hmod⟩ := List.append_inj' h rfl
      have hq := ih (a / 16) (by omega) (b / 16) hdiv
      have hr := digitChar_inj (Nat.mod_lt a (by decide)) (Nat.mod_lt b (by decide))
        (List.singleton_inj.mp hmod)
      omega

/-- Different draws give different uuids. -/
theorem uuidHex_inj {a b : Nat} (h : uuidHex a = uuidHex b) : a = b :=
  toDigits_inj a b (String.ofList_injective h)

section Steps

variable {reply : Nat → Choice} {i : Nat} {s s' s₁ : Snapshot cfg fuel}

/-- The acked cursor moves, in the row and in the task's hands. -/
theorem advanceCursor_eval (reply : Nat → Choice) (i : Nat) {h : Handle} (hh : Held h s.state)
    (topic cursor : String) :
    ∃ s' h' rows, Evals reply i (advanceCursor h topic cursor) s (.ok h') s' ∧ Quiet s s' ∧
      Held h' s'.state ∧ h'.sub = h.sub.ackedAt topic cursor ∧
      s'.state = { s.state with subs := { s.state.subs with rows := rows } } ∧
      ∀ id', id' ≠ h.sub.subscriptionId → rows.get? id' = s.state.subs.rows.get? id' := by
  have hderef : World.exec i (.deref h) (reply (sendCount s.trace)) s.state = some (h, s.state) := by
    simp [World.exec, hh.deref]
  by_cases hnew : isNewer cursor (h.sub.cursors.get? topic) = true
  · let sub : Subscription := { h.sub with cursors := h.sub.cursors.set topic cursor }
    have hsub : h.sub.ackedAt topic cursor = sub := by
      simp only [Subscription.ackedAt, hnew, if_true, sub]
    let rows := s.state.subs.rows.set h.sub.subscriptionId sub
    let w : World := { s.state with subs := { s.state.subs with rows := rows } }
    have hheld : Held ⟨sub, sub⟩ w := ⟨by simp [w, rows, sub], rfl⟩
    have hothers : ∀ id', id' ≠ h.sub.subscriptionId → rows.get? id' = s.state.subs.rows.get? id' := by
      intro id' hne
      simp [rows, hne]
    -- a live object is the row itself, a copy is written back
    let s₁ := s.next i (.deref h) h s.state
    cases hb : s.state.subs.backend with
    | live =>
      have hassign : World.exec i (.assign h (.cursor topic cursor)) (reply (sendCount s₁.trace)) s.state =
          some (⟨sub, sub⟩, w) := by
        simp [World.exec, SubscriptionStore.assign, hb, hh.row, Edit.apply, w, rows, sub]
      have hupdate : ∀ c, World.exec i (.update ⟨sub, sub⟩) c w = some (⟨sub, sub⟩, w) := by
        intro c
        have hbw : w.subs.backend = .live := hb
        simp [World.exec, SubscriptionStore.update, hbw]
      let s₂ := s₁.next i (.assign h (.cursor topic cursor)) ⟨sub, sub⟩ w
      refine ⟨s₂.next i (.update ⟨sub, sub⟩) ⟨sub, sub⟩ w, ⟨sub, sub⟩, rows, .call hderef ?_,
        (((Quiet.refl s).next rfl).next rfl).next rfl, hheld, hsub.symm, rfl, hothers⟩
      rw [if_pos hnew]
      exact .call hassign (.last (hupdate _))
    | copies =>
      let h₁ : Handle := { h with sub := sub }
      have hassign : World.exec i (.assign h (.cursor topic cursor)) (reply (sendCount s₁.trace)) s.state =
          some (h₁, s.state) := by
        simp [World.exec, SubscriptionStore.assign, hb, Edit.apply, h₁, sub]
      have hupdate : ∀ c, World.exec i (.update h₁) c s.state = some (⟨sub, sub⟩, w) := by
        intro c
        simp [World.exec, SubscriptionStore.update, hb, h₁, sub, hh.row, w, rows]
      let s₂ := s₁.next i (.assign h (.cursor topic cursor)) h₁ s.state
      refine ⟨s₂.next i (.update h₁) ⟨sub, sub⟩ w, ⟨sub, sub⟩, rows, .call hderef ?_,
        (((Quiet.refl s).next rfl).next rfl).next rfl, hheld, hsub.symm, rfl, hothers⟩
      rw [if_pos hnew]
      exact .call hassign (.last (hupdate _))
  · refine ⟨s.next i (.deref h) h s.state, h, s.state.subs.rows, .call hderef ?_,
      (Quiet.refl s).next rfl, hh, ?_, rfl, fun _ _ => rfl⟩
    · rw [if_neg hnew]
      exact .pure _ _
    · simp only [Subscription.ackedAt, hnew, Bool.false_eq_true, if_false]

/-- The position is raised. -/
theorem raiseHighWater_eval (reply : Nat → Choice) (i : Nat) (s : Snapshot cfg fuel) (id topic : String)
    (o : Int) : ∃ s' positions, Evals reply i (raiseHighWater id topic o) s (.ok ()) s' ∧ Quiet s s' ∧
      s'.state = { s.state with subs := { s.state.subs with positions := positions } } ∧
      ∀ id' topic', s'.state.subs.position id' topic' =
        if id' = id ∧ topic' = topic then max (s.state.subs.position id topic) o
        else s.state.subs.position id' topic' := by
  let s₁ := s.next i (.highWater id) (s.state.subs.highWater id) s.state
  have hread : World.exec i (.highWater id) (reply (sendCount s.trace)) s.state =
      some (s.state.subs.highWater id, s.state) := rfl
  have hposition : (s.state.subs.highWater id).getD topic (-1) = s.state.subs.position id topic := rfl
  by_cases hgt : o > s.state.subs.position id topic
  · refine ⟨s₁.next i (.setHighWater id topic o) ()
      { s.state with subs := s.state.subs.setHighWater id topic o }, _, .call hread ?_,
      ((Quiet.refl s).next rfl).next rfl, rfl, fun id' topic' => ?_⟩
    · rw [hposition, if_pos hgt]
      exact .last rfl
    · rw [show max (s.state.subs.position id topic) o = o by omega]
      exact SubscriptionStore.position_setHighWater s.state.subs id topic id' topic' o
  · refine ⟨s₁, s.state.subs.positions, .call hread ?_, (Quiet.refl s).next rfl, rfl, fun id' topic' => ?_⟩
    · rw [hposition, if_neg hgt]
      exact .pure _ _
    · show s.state.subs.position id' topic' = _
      split
      · rename_i heq
        rw [heq.1, heq.2]
        omega
      · rfl

/-! ## Ends of a delivery -/

/-- The position after a delivery that ended so. -/
def Ending.position (e : Ending) (old : Int) (o : Nat) : Int :=
  match e with
  | .delivered => max old o
  | .deadLettered | .queued => o
  | .untried | .raised _ => old

/-- The subscription after a delivery that ended so. -/
def Ending.sub (e : Ending) (sub : Subscription) (record : EventRecord) : Subscription :=
  match e with
  | .delivered => sub.ackedAt record.topic record.cursor
  | _ => sub

/-- The value or the exception of a delivery that ended so. -/
def Ending.result {α : Type} (e : Ending) (a : α) : Except PyError α :=
  match e with
  | .raised e => .error e
  | _ => .ok a

/-- The delivery of an event at offset `o` took its course, from attempt `n` on. -/
structure Delivers (h : Handle) (record : EventRecord) (o n : Nat) (c : Course)
    (s s' : Snapshot cfg fuel) (h' : Handle) : Prop where
  held : Held h' s'.state
  sub : h'.sub = c.ending.sub h.sub record
  elsewhere : Elsewhere h.sub.subscriptionId record.topic s.state s'.state
  position : s'.state.subs.position h.sub.subscriptionId record.topic =
    c.ending.position (s.state.subs.position h.sub.subscriptionId record.topic) o
  attempts : ∃ l, s'.state.subs.attempts = s.state.subs.attempts ++ l ∧
    l.map (fun a => (a.attempt, a.status)) = c.log ∧
    ∀ a ∈ l, a.subscriptionId = h.sub.subscriptionId ∧ a.eventId = record.eventId
  count : sendCount s'.trace = sendCount s.trace + c.sends
  sends : ∀ id topic, sends s'.trace id topic = sends s.trace id topic ++
    if h.sub.subscriptionId = id ∧ record.topic = topic then
      (List.range' n c.sends).map fun m => (o, m) else []

@[simp] theorem Subscription.ackedAt_subscriptionId (sub : Subscription) (topic cursor : String) :
    (sub.ackedAt topic cursor).subscriptionId = sub.subscriptionId := by
  unfold Subscription.ackedAt
  split <;> rfl

@[simp] theorem Ending.sub_subscriptionId (e : Ending) (sub : Subscription) (record : EventRecord) :
    (e.sub sub record).subscriptionId = sub.subscriptionId := by
  cases e <;> simp [Ending.sub]

theorem Delivers.subscriptionId {h h' : Handle} {record : EventRecord} {o n : Nat} {c : Course}
    (hd : Delivers h record o n c s s' h') : h'.sub.subscriptionId = h.sub.subscriptionId := by
  rw [hd.sub, Ending.sub_subscriptionId]

/-- A success: the attempt is written down, the acked cursor and the position advance. -/
theorem onDelivered_eval (reply : Nat → Choice) (i : Nat) {h : Handle} (hh : Held h s.state)
    {record : EventRecord} {o : Nat} (hoff : Cursor.offsetOf record.cursor = .ok o) (n : Nat)
    (result : DeliveryResult) :
    ∃ s' h' attempt, Evals reply i (onDelivered h record n result) s (.ok h') s' ∧ Quiet s s' ∧
      Held h' s'.state ∧ h'.sub = h.sub.ackedAt record.topic record.cursor ∧
      Elsewhere h.sub.subscriptionId record.topic s.state s'.state ∧
      s'.state.queue = s.state.queue ∧
      s'.state.subs.position h.sub.subscriptionId record.topic =
        max (s.state.subs.position h.sub.subscriptionId record.topic) o ∧
      s'.state.subs.attempts = s.state.subs.attempts ++ [attempt] ∧ attempt.attempt = n ∧
      attempt.status = .delivered ∧ attempt.subscriptionId = h.sub.subscriptionId ∧
      attempt.eventId = record.eventId := by
  obtain ⟨s₁, k, attempt, hrec, hs₁, hk, hn, hstatus, hid, hevent, -, hq₁⟩ :=
    recordAttempt_eval reply i s h record n .delivered result
  have hh₁ : Held h s₁.state := by
    rw [hs₁]
    exact ⟨hh.row, hh.base⟩
  obtain ⟨s₂, h', rows, hadv, hq₂, hh₂, hsub, hs₂, hrows⟩ :=
    advanceCursor_eval reply i hh₁ record.topic record.cursor
  have hid' : h'.sub.subscriptionId = h.sub.subscriptionId := by
    rw [hsub, Subscription.ackedAt_subscriptionId]
  obtain ⟨s₃, positions, hraise, hq₃, hs₃, hposition⟩ :=
    raiseHighWater_eval reply i s₂ h'.sub.subscriptionId record.topic o
  let w : World := { s₃.state with
    subs := s₃.state.subs.recordAck h'.sub.subscriptionId record.eventId record.cursor }
  let s₄ := s₃.next i (.recordAck h'.sub.subscriptionId record.eventId record.cursor) () w
  have hack : Evals reply i (advance h record.topic record.cursor (some record.eventId)) s₁ (.ok h') s₄ := by
    refine hadv.bind (Evals.lift hoff (hraise.bind ?_))
    show Evals reply i (perform (.recordAck h'.sub.subscriptionId record.eventId record.cursor) >>= fun _ =>
      pure h') s₃ (.ok h') s₄
    exact Evals.call rfl (.pure _ _)
  have hpos : ∀ id' topic', s₄.state.subs.position id' topic' =
      if id' = h'.sub.subscriptionId ∧ topic' = record.topic then
        max (s.state.subs.position h'.sub.subscriptionId record.topic) o
      else s.state.subs.position id' topic' := by
    intro id' topic'
    have hbefore : ∀ a b, s₂.state.subs.position a b = s.state.subs.position a b := by
      intro a b
      rw [hs₂, hs₁]
      rfl
    rw [← hbefore, ← hbefore]
    exact hposition id' topic'
  refine ⟨s₄, h', attempt, hrec.bind hack, ?_, ?_, hsub, ?_, ?_, ?_, ?_, hn, hstatus, hid, hevent⟩
  · exact (hq₁.trans (hq₂.trans hq₃)).next rfl
  · refine ⟨?_, hh₂.base⟩
    rw [← hh₂.row]
    show s₃.state.subs.rows.get? _ = _
    rw [hs₃]
  · refine ⟨?_, ?_, ?_, ?_, ?_, ?_, ?_, fun id' hne => ?_, fun id' topic' hne => ?_⟩
    · simp [s₄, w, hs₃, hs₂, hs₁]
    · simp [s₄, w, hs₃, hs₂, hs₁]
    · simp [s₄, w, hs₃, hs₂, hs₁]
    · simp [s₄, w, hs₃, hs₂, hs₁]
    · simp [s₄, w, hs₃, hs₂, hs₁]
    · simp [s₄, w, hs₃, hs₂, hs₁, SubscriptionStore.recordAck, SubscriptionStore.recordAttempt]
    · simpa [s₄, w, hs₃, hs₂, hs₁] using hk
    · show s₃.state.subs.rows.get? _ = _
      rw [hs₃, hs₂]
      refine (hrows id' hne).trans ?_
      rw [hs₁]
      rfl
    · rw [hpos, hid', if_neg hne]
  · simp [s₄, w, hs₃, hs₂, hs₁]
  · rw [hpos, hid', if_pos ⟨rfl, rfl⟩]
  · simp [s₄, w, hs₃, hs₂, hs₁, SubscriptionStore.recordAck, SubscriptionStore.recordAttempt]

/-- A dead letter: the attempt is written down, and the position moves onto the event. -/
theorem onTerminal_eval (reply : Nat → Choice) (i : Nat) {h : Handle} (hh : Held h s.state)
    {record : EventRecord} {o : Nat} (hoff : Cursor.offsetOf record.cursor = .ok o) (n : Nat)
    (result : DeliveryResult) :
    ∃ s' attempt, Evals reply i (onTerminal h record n result) s (.ok ()) s' ∧ Quiet s s' ∧
      Held h s'.state ∧ Elsewhere h.sub.subscriptionId record.topic s.state s'.state ∧
      s'.state.queue = s.state.queue ∧
      s'.state.subs.position h.sub.subscriptionId record.topic = o ∧
      s'.state.subs.attempts = s.state.subs.attempts ++ [attempt] ∧ attempt.attempt = n ∧
      attempt.status = .deadLetter ∧ attempt.subscriptionId = h.sub.subscriptionId ∧
      attempt.eventId = record.eventId := by
  obtain ⟨s₁, k, attempt, hrec, hs₁, hk, hn, hstatus, hid, hevent, -, hq₁⟩ :=
    recordAttempt_eval reply i s h record n .deadLetter result
  let w : World := { s₁.state with
    subs := s₁.state.subs.setHighWater h.sub.subscriptionId record.topic o }
  let s₂ := s₁.next i (.setHighWater h.sub.subscriptionId record.topic o) () w
  have hpos : ∀ id' topic', s₂.state.subs.position id' topic' =
      if id' = h.sub.subscriptionId ∧ topic' = record.topic then (o : Int)
      else s.state.subs.position id' topic' := by
    intro id' topic'
    refine (SubscriptionStore.position_setHighWater s₁.state.subs _ _ id' topic' o).trans ?_
    rw [hs₁]
    rfl
  refine ⟨s₂, attempt, hrec.bind (Evals.lift hoff (Evals.last rfl)), hq₁.next rfl, ?_, ?_, ?_, ?_, ?_, hn, hstatus,
    hid, hevent⟩
  · refine ⟨?_, hh.base⟩
    show s₁.state.subs.rows.get? _ = _
    rw [hs₁]
    exact hh.row
  · refine ⟨?_, ?_, ?_, ?_, ?_, ?_, ?_, fun id' _ => ?_, fun id' topic' hne => ?_⟩
    · simp [s₂, w, hs₁]
    · simp [s₂, w, hs₁]
    · simp [s₂, w, hs₁]
    · simp [s₂, w, hs₁]
    · simp [s₂, w, hs₁]
    · simp [s₂, w, hs₁, SubscriptionStore.setHighWater, SubscriptionStore.recordAttempt]
    · simpa [s₂, w, hs₁] using hk
    · show s₁.state.subs.rows.get? _ = _
      rw [hs₁]
      rfl
    · rw [hpos, if_neg hne]
  · simp [s₂, w, hs₁]
  · rw [hpos, if_pos ⟨rfl, rfl⟩]
  · simp [s₂, w, hs₁, SubscriptionStore.setHighWater, SubscriptionStore.recordAttempt]

/-! ## Deliveries -/

private theorem sends_of_sent {h : Handle} {record : EventRecord} {o n : Nat} (hsent : Sent h record o n s s') :
    ∀ id topic, sends s'.trace id topic = sends s.trace id topic ++
      if h.sub.subscriptionId = id ∧ record.topic = topic then
        (List.range' n 1).map (fun m => (o, m)) else [] := by
  intro id topic
  rw [hsent.sends]
  rfl

private theorem elsewhere_of_uuids {id topic : String} {w : World} {k : Nat} (hk : w.uuids ≤ k) :
    Elsewhere id topic w { w with uuids := k } :=
  ⟨rfl, rfl, rfl, rfl, rfl, rfl, hk, fun _ _ => rfl, fun _ _ _ => rfl⟩

private theorem elsewhere_of_attempt {id topic : String} {w : World} {k : Nat} (hk : w.uuids ≤ k)
    (attempt : DeliveryAttempt) :
    Elsewhere id topic w { w with uuids := k, subs := w.subs.recordAttempt attempt } :=
  ⟨rfl, rfl, rfl, rfl, rfl, rfl, hk, fun _ _ => rfl, fun _ _ _ => rfl⟩

/-- An attempt that the transport raises on. -/
private theorem Sent.raises {h : Handle} {record : EventRecord} {o n k : Nat}
    (hsent : Sent h record o n s s') (hh : Held h s.state) (hs' : s'.state = { s.state with uuids := k })
    (hk : s.state.uuids ≤ k) (e : PyError) :
    Delivers h record o n ⟨[], 1, .raised e⟩ s s' h where
  held := by
    rw [hs']
    exact ⟨hh.row, hh.base⟩
  sub := rfl
  elsewhere := by
    rw [hs']
    exact elsewhere_of_uuids hk
  position := by
    rw [hs']
    rfl
  attempts := ⟨[], by rw [hs', List.append_nil], rfl, fun _ ha => (by cases ha)⟩
  count := hsent.count
  sends := sends_of_sent hsent

/-- An attempt that ends the delivery, in the end `e`. -/
private theorem Sent.ends {h h' : Handle} {record : EventRecord} {o n k : Nat} {e : Ending}
    {attempt : DeliveryAttempt} {status : AttemptStatus} (hsent : Sent h record o n s s₁)
    (hs₁ : s₁.state = { s.state with uuids := k }) (hk : s.state.uuids ≤ k) (hq : Quiet s₁ s')
    (hh' : Held h' s'.state) (hsub : h'.sub = e.sub h.sub record)
    (helse : Elsewhere h.sub.subscriptionId record.topic s₁.state s'.state)
    (hpos : s'.state.subs.position h.sub.subscriptionId record.topic =
      e.position (s₁.state.subs.position h.sub.subscriptionId record.topic) o)
    (hattempts : s'.state.subs.attempts = s₁.state.subs.attempts ++ [attempt])
    (hn : attempt.attempt = n) (hstatus : attempt.status = status)
    (hid : attempt.subscriptionId = h.sub.subscriptionId) (hevent : attempt.eventId = record.eventId) :
    Delivers h record o n ⟨[(n, status)], 1, e⟩ s s' h' where
  held := hh'
  sub := hsub
  elsewhere := by
    rw [hs₁] at helse
    exact (elsewhere_of_uuids hk).trans helse
  position := by
    rw [hpos, hs₁]
  attempts := by
    refine ⟨[attempt], by rw [hattempts, hs₁], by rw [List.map_singleton, hn, hstatus], fun a ha => ?_⟩
    rw [List.mem_singleton.mp ha]
    exact ⟨hid, hevent⟩
  count := hq.count.trans hsent.count
  sends := by
    intro id topic
    rw [hq.sends]
    exact sends_of_sent hsent id topic

/-- A failed attempt that is followed by others. -/
private theorem Delivers.retry {h h' : Handle} {record : EventRecord} {o n : Nat} {c : Course} {s₂ : Snapshot cfg fuel}
    (hd : Delivers h record o n ⟨[(n, .retry)], 1, .untried⟩ s s₂ h)
    (hrest : Delivers h record o (n + 1) c s₂ s' h') :
    Delivers h record o n ⟨(n, .retry) :: c.log, c.sends + 1, c.ending⟩ s s' h' where
  held := hrest.held
  sub := hrest.sub
  elsewhere := hd.elsewhere.trans hrest.elsewhere
  position := by
    rw [hrest.position, hd.position]
    rfl
  attempts := by
    obtain ⟨l, hl, hlog, hof⟩ := hd.attempts
    obtain ⟨l', hl', hlog', hof'⟩ := hrest.attempts
    refine ⟨l ++ l', by rw [hl', hl, List.append_assoc], by rw [List.map_append, hlog, hlog']; rfl, ?_⟩
    exact fun a ha => (List.mem_append.mp ha).elim (hof a) (hof' a)
  count := by
    rw [hrest.count, hd.count]
    show _ + 1 + _ = _ + (_ + 1)
    omega
  sends := by
    intro id topic
    rw [hrest.sends, hd.sends, List.append_assoc]
    congr 1
    split
    · rfl
    · rfl

/-- Inline attempts follow their course. From attempt 1025 on no delay can be computed, so that
    attempt numbers stay small. -/
theorem deliverInline_eval (reply : Nat → Choice) (i : Nat) {h : Handle} {record : EventRecord}
    {topic : Topic} {o : Nat} (hdata : ∃ bytes, canonicalize (.obj record.data) = .ok bytes)
    (hoff : Cursor.offsetOf record.cursor = .ok o) (remaining : Nat) :
    ∀ {n : Nat} {s : Snapshot cfg fuel}, n ≤ 1025 → Held h s.state →
      s.state.topics.get? record.topic = some topic →
      ∃ s' h', Evals reply i (deliverInline cfg h record n remaining) s
          ((course cfg reply (sendCount s.trace) n remaining).ending.result h') s' ∧
        Delivers h record o n (course cfg reply (sendCount s.trace) n remaining) s s' h' ∧
        s'.state.queue = s.state.queue := by
  induction remaining with
  | zero =>
    intro n s _ hh _
    unfold deliverInline course
    refine ⟨s, h, Eval.pure_iff.mpr ⟨rfl, rfl⟩, ⟨hh, rfl, .refl _ _ _, rfl, ⟨[], by simp, rfl, fun _ ha => (by cases ha)⟩, rfl,
      fun id topic => ?_⟩, rfl⟩
    simp
  | succ remaining ih =>
    intro n s hn hh hcached
    have hprinted : n < 10 ^ Cursor.maxStrDigits := by
      have : Cursor.maxStrDigits < 10 ^ Cursor.maxStrDigits := Nat.lt_pow_self (by decide)
      have : Cursor.maxStrDigits = 4300 := rfl
      omega
    obtain ⟨s₁, k, hsend, hs₁, hk, hsent⟩ := attemptSend_eval reply i h hcached hdata hoff hprinted rfl
    have hh₁ : Held h s₁.state := by
      rw [hs₁]
      exact ⟨hh.row, hh.base⟩
    unfold deliverInline course
    cases hres : (reply (sendCount s.trace)).result with
    | error e =>
      rw [hres] at hsend
      exact ⟨s₁, h, hsend.bind_error _, hsent.raises hh hs₁ hk e, by rw [hs₁]⟩
    | ok result =>
      rw [hres] at hsend
      simp only
      by_cases hack : result.ack = true
      · obtain ⟨s₂, h', attempt, hend, hq, hh', hsub, helse, hqueue, hpos, hattempts, ha, hstatus, hid, hevent⟩ :=
          onDelivered_eval reply i hh₁ hoff n result
        refine ⟨s₂, h', hsend.bind ?_, ?_, by rw [hqueue, hs₁]⟩
        · rw [if_pos hack, if_pos hack]
          exact hend
        · rw [if_pos hack]
          exact hsent.ends hs₁ hk hq hh' hsub helse hpos hattempts ha hstatus hid hevent
      rw [if_neg hack]
      by_cases hlast : (!result.retry || decide ((n : Int) = cfg.maxAttempts)) = true
      · obtain ⟨s₂, attempt, hend, hq, hh', helse, hqueue, hpos, hattempts, ha, hstatus, hid, hevent⟩ :=
          onTerminal_eval reply i hh₁ hoff n result
        refine ⟨s₂, h, hsend.bind ?_, ?_, by rw [hqueue, hs₁]⟩
        · rw [if_neg hack, if_pos hlast, if_pos hlast]
          exact hend.bind (.pure _ _)
        · rw [if_pos hlast]
          exact hsent.ends hs₁ hk hq hh' rfl helse hpos hattempts ha hstatus hid hevent
      rw [if_neg hlast]
      -- the attempt is written down, and the next one waits for its delay
      obtain ⟨s₂, k₂, attempt, hrec, hs₂, hk₂, ha, hstatus, hid, hevent, -, hq⟩ :=
        recordAttempt_eval reply i s₁ h record n .retry result
      have hh₂ : Held h s₂.state := by
        rw [hs₂]
        exact ⟨hh₁.row, hh₁.base⟩
      have helse : Elsewhere h.sub.subscriptionId record.topic s₁.state s₂.state := by
        rw [hs₂]
        exact elsewhere_of_attempt hk₂ attempt
      have hattempts : s₂.state.subs.attempts = s₁.state.subs.attempts ++ [attempt] := by
        rw [hs₂]
        rfl
      have hqueue : s₂.state.queue = s.state.queue := by rw [hs₂, hs₁]
      have hfailed : ∀ e : Ending, (∀ old o, e.position old o = old) → (∀ sub r, e.sub sub r = sub) →
          Delivers h record o n ⟨[(n, .retry)], 1, e⟩ s s₂ h := by
        intro e hposition hsub
        refine hsent.ends hs₁ hk hq hh₂ (hsub _ _).symm helse ?_ hattempts ha hstatus hid hevent
        rw [hposition, hs₂]
        rfl
      cases hdelay : backoffDelay cfg n with
      | error e =>
        refine ⟨s₂, h, hsend.bind ?_, hfailed (.raised e) (fun _ _ => rfl) (fun _ _ => rfl), hqueue⟩
        rw [if_neg hack, if_neg hlast]
        exact hrec.bind (Eval.bind_error _ (Eval.lift_iff.mpr ⟨rfl, rfl⟩))
      | ok delay =>
        have hsmall : n ≤ 1024 := by
          by_contra hlarge
          rw [backoffDelay, if_neg (by omega)] at hdelay
          cases hdelay
        let s₃ := s₂.next i (.sleep delay) () s₂.state
        have hq₃ : Quiet s₂ s₃ := (Quiet.refl s₂).next rfl
        have hd₃ : Delivers h record o n ⟨[(n, .retry)], 1, .untried⟩ s s₃ h := by
          have hd := hfailed .untried (fun _ _ => rfl) (fun _ _ => rfl)
          exact ⟨hd.held, hd.sub, hd.elsewhere, hd.position, hd.attempts, hq₃.count.trans hd.count,
            fun id topic => (hq₃.sends id topic).trans (hd.sends id topic)⟩
        have hcached₃ : s₃.state.topics.get? record.topic = some topic := by
          rw [hd₃.elsewhere.topics]
          exact hcached
        have hcount : sendCount s₃.trace = sendCount s.trace + 1 := hd₃.count
        obtain ⟨s', h', hrun, hd', hqueue'⟩ := ih (by omega : n + 1 ≤ 1025) hd₃.held hcached₃
        rw [hcount] at hrun hd'
        refine ⟨s', h', hsend.bind ?_, hd₃.retry hd', hqueue'.trans hqueue⟩
        rw [if_neg hack, if_neg hlast]
        exact hrec.bind (Evals.lift rfl (Evals.call rfl hrun))

/-- The event was put into the retry queue after its first attempt. -/
def Enqueues (h : Handle) (record : EventRecord) (w w' : World) : Prop :=
  ∃ item n, w'.queue = w.queue.enqueue item ∧ w.uuids ≤ n ∧ n < w'.uuids ∧
    item.retryId = "rty_" ++ uuidHex n ∧ item.subscriptionId = h.sub.subscriptionId ∧
    item.topic = record.topic ∧ item.cursor = record.cursor ∧ item.eventId = record.eventId ∧
    item.attempt = 1

/-- What a delivery that ended so leaves in the retry queue. -/
def Ending.Leaves (e : Ending) (h : Handle) (record : EventRecord) (w w' : World) : Prop :=
  match e with
  | .queued => Enqueues h record w w'
  | _ => w'.queue = w.queue

/-- With a retry queue the first attempt follows its course. -/
theorem deliverQueued_eval (reply : Nat → Choice) (i : Nat) {h : Handle} {record : EventRecord}
    {topic : Topic} {o : Nat} (hdata : ∃ bytes, canonicalize (.obj record.data) = .ok bytes)
    (hoff : Cursor.offsetOf record.cursor = .ok o) (hh : Held h s.state)
    (hcached : s.state.topics.get? record.topic = some topic) (hfresh : RetryIdsFresh s.state) :
    ∃ s' h', Evals reply i (deliverQueued cfg h record) s
        ((firstCourse cfg reply (sendCount s.trace)).ending.result h') s' ∧
      Delivers h record o 1 (firstCourse cfg reply (sendCount s.trace)) s s' h' ∧
      (firstCourse cfg reply (sendCount s.trace)).ending.Leaves h record s.state s'.state := by
  have hprinted : 1 < 10 ^ Cursor.maxStrDigits := Nat.one_lt_pow (by decide) (by decide)
  obtain ⟨s₁, k, hsend, hs₁, hk, hsent⟩ := attemptSend_eval reply i h hcached hdata hoff hprinted rfl
  have hh₁ : Held h s₁.state := by
    rw [hs₁]
    exact ⟨hh.row, hh.base⟩
  unfold deliverQueued firstCourse
  cases hres : (reply (sendCount s.trace)).result with
  | error e =>
    rw [hres] at hsend
    refine ⟨s₁, h, hsend.bind_error _, hsent.raises hh hs₁ hk e, ?_⟩
    show s₁.state.queue = s.state.queue
    rw [hs₁]
  | ok result =>
    rw [hres] at hsend
    simp only
    by_cases hack : result.ack = true
    · obtain ⟨s₂, h', attempt, hend, hq, hh', hsub, helse, hqueue, hpos, hattempts, ha, hstatus, hid, hevent⟩ :=
        onDelivered_eval reply i hh₁ hoff 1 result
      refine ⟨s₂, h', hsend.bind ?_, ?_, ?_⟩
      · rw [if_pos hack, if_pos hack]
        exact hend
      · rw [if_pos hack]
        exact hsent.ends hs₁ hk hq hh' hsub helse hpos hattempts ha hstatus hid hevent
      · rw [if_pos hack]
        show s₂.state.queue = s.state.queue
        rw [hqueue, hs₁]
    rw [if_neg hack]
    by_cases hlast : (!result.retry || decide (cfg.maxAttempts ≤ 1)) = true
    · obtain ⟨s₂, attempt, hend, hq, hh', helse, hqueue, hpos, hattempts, ha, hstatus, hid, hevent⟩ :=
        onTerminal_eval reply i hh₁ hoff 1 result
      refine ⟨s₂, h, hsend.bind ?_, ?_, ?_⟩
      · rw [if_neg hack, if_pos hlast, if_pos hlast]
        exact hend.bind (.pure _ _)
      · rw [if_pos hlast]
        exact hsent.ends hs₁ hk hq hh' rfl helse hpos hattempts ha hstatus hid hevent
      · rw [if_pos hlast]
        show s₂.state.queue = s.state.queue
        rw [hqueue, hs₁]
    rw [if_neg hlast]
    -- the attempt is written down, and the event is handed over to the queue
    obtain ⟨s₂, k₂, attempt, hrec, hs₂, hk₂, ha, hstatus, hid, hevent, -, hq⟩ :=
      recordAttempt_eval reply i s₁ h record 1 .retry result
    have hdelay : backoffDelay cfg 1 =
        .ok (min (cfg.retryInitialDelay * 2 ^ (1 - 1)) cfg.retryMaxDelay) := if_pos (by decide)
    have hle : s.state.uuids ≤ k₂ := by
      rw [hs₁] at hk₂
      exact Nat.le_trans hk hk₂
    let item : RetryItem :=
      { retryId := "rty_" ++ uuidHex k₂
        subscriptionId := h.sub.subscriptionId
        topic := record.topic
        cursor := record.cursor
        eventId := record.eventId
        attempt := 1
        nextRetryAt := s.state.clock + min (cfg.retryInitialDelay * 2 ^ (1 - 1)) cfg.retryMaxDelay
        lastError := result.reason }
    let w₃ : World := { s₂.state with uuids := k₂ + 1 }
    let s₃ := s₂.next i .uuid (uuidHex k₂) w₃
    let s₄ := s₃.next i .now s.state.clock w₃
    let w₅ : World := { w₃ with queue := s.state.queue.enqueue item }
    let s₅ := s₄.next i (.enqueue item) () w₅
    let w₆ : World := { w₅ with subs := w₅.subs.setHighWater h.sub.subscriptionId record.topic o }
    let s₆ := s₅.next i (.setHighWater h.sub.subscriptionId record.topic o) () w₆
    have hex₃ : ∀ c, World.exec i .uuid c s₂.state = some (uuidHex k₂, w₃) := by
      intro c
      simp [World.exec, w₃, hs₂]
    have hex₄ : ∀ c, World.exec i .now c w₃ = some (s.state.clock, w₃) := by
      intro c
      simp [World.exec, w₃, hs₂, hs₁]
    have hex₅ : ∀ c, World.exec i (.enqueue item) c w₃ = some ((), w₅) := by
      intro c
      have hqueue : w₃.queue = s.state.queue := by simp [w₃, hs₂, hs₁]
      have hnone : w₃.queue.items.get? item.retryId = none := by
        rw [hqueue]
        exact hfresh k₂ hle
      simp only [World.exec]
      rw [hnone]
      simp only [w₅, hqueue]
    have hpos : ∀ id' topic', w₆.subs.position id' topic' =
        if id' = h.sub.subscriptionId ∧ topic' = record.topic then (o : Int)
        else s.state.subs.position id' topic' := by
      intro id' topic'
      refine (SubscriptionStore.position_setHighWater w₅.subs _ _ id' topic' o).trans ?_
      have hsame : w₅.subs.position id' topic' = s.state.subs.position id' topic' := by
        simp [w₅, w₃, hs₂, hs₁, SubscriptionStore.recordAttempt, SubscriptionStore.position,
          SubscriptionStore.highWater]
      rw [hsame]
    refine ⟨s₆, h, hsend.bind ?_, ?_, ?_⟩
    · rw [if_neg hack, if_neg hlast]
      refine hrec.bind (Evals.call (hex₃ _) (Evals.call (hex₄ _) (Evals.lift hdelay (Evals.call (hex₅ _)
        (Evals.lift hoff (Evals.call rfl (.pure _ _)))))))
    · have hq₆ : Quiet s₂ s₆ := ((((Quiet.refl s₂).next rfl).next rfl).next rfl).next rfl
      refine hsent.ends hs₁ hk (hq.trans hq₆) ⟨?_, hh.base⟩ rfl
        ⟨?_, ?_, ?_, ?_, ?_, ?_, ?_, fun id' _ => ?_, fun id' topic' hne => ?_⟩ ?_ ?_ ha hstatus hid hevent
      · simpa [s₆, w₆, w₅, w₃, hs₂, hs₁, SubscriptionStore.recordAttempt, SubscriptionStore.setHighWater] using hh.row
      · simp [s₆, w₆, w₅, w₃, hs₂]
      · simp [s₆, w₆, w₅, w₃, hs₂]
      · simp [s₆, w₆, w₅, w₃, hs₂]
      · simp [s₆, w₆, w₅, w₃, hs₂]
      · simp [s₆, w₆, w₅, w₃, hs₂]
      · simp [s₆, w₆, w₅, w₃, hs₂, SubscriptionStore.recordAttempt, SubscriptionStore.setHighWater]
      · show s₁.state.uuids ≤ k₂ + 1
        omega
      · simp [s₆, w₆, w₅, w₃, hs₂, SubscriptionStore.recordAttempt, SubscriptionStore.setHighWater]
      · rw [show s₆.state = w₆ from rfl, hpos, if_neg hne, hs₁]
      · rw [show s₆.state = w₆ from rfl, hpos, if_pos ⟨rfl, rfl⟩]
        rfl
      · simp [s₆, w₆, w₅, w₃, hs₂, SubscriptionStore.recordAttempt, SubscriptionStore.setHighWater]
    · exact ⟨item, k₂, rfl, hle, Nat.lt_succ_self _, rfl, rfl, rfl, rfl, rfl, rfl⟩

/-- Inline attempts leave nothing to the queue. -/
theorem course_not_queued (reply : Nat → Choice) (remaining : Nat) :
    ∀ base n, (course cfg reply base n remaining).ending ≠ .queued := by
  induction remaining with
  | zero =>
    intro base n h
    cases h
  | succ remaining ih =>
    intro base n
    unfold course
    split
    · exact fun h => (by cases h)
    split
    · exact fun h => (by cases h)
    split
    · exact fun h => (by cases h)
    split
    · exact fun h => (by cases h)
    · exact ih _ _

private theorem Ending.leaves_of_ne {e : Ending} {h : Handle} {record : EventRecord} {w w' : World}
    (hne : e ≠ .queued) (hqueue : w'.queue = w.queue) : e.Leaves h record w w' := by
  cases e with
  | queued => exact absurd rfl hne
  | _ => exact hqueue

theorem Ending.Leaves.fresh {e : Ending} {h : Handle} {record : EventRecord} {w w' : World}
    (hl : e.Leaves h record w w') (hle : w.uuids ≤ w'.uuids) (hfresh : RetryIdsFresh w) :
    RetryIdsFresh w' := by
  intro m hm
  have hold := hfresh m (Nat.le_trans hle hm)
  cases e with
  | queued =>
    obtain ⟨item, n, hqueue, -, hn, hid, -⟩ := hl
    rw [hqueue]
    simp only [RetryQueue.enqueue, Dict.get?_set]
    split
    · -- only the ids drawn so far are in use
      rename_i heq
      rw [hid, String.append_right_inj] at heq
      have := uuidHex_inj heq
      omega
    · exact hold
  | _ =>
    have hqueue : w'.queue = w.queue := hl
    rwa [hqueue]

/-- A delivery follows its course. -/
theorem deliverOne_eval (reply : Nat → Choice) (i : Nat) {h : Handle} {record : EventRecord}
    {topic : Topic} {o : Nat} (hdata : ∃ bytes, canonicalize (.obj record.data) = .ok bytes)
    (hoff : Cursor.offsetOf record.cursor = .ok o) (hh : Held h s.state)
    (hcached : s.state.topics.get? record.topic = some topic) (hfresh : RetryIdsFresh s.state) :
    ∃ s' h', Evals reply i (deliverOne cfg h record) s
        ((delivery cfg reply (sendCount s.trace)).ending.result h') s' ∧
      Delivers h record o 1 (delivery cfg reply (sendCount s.trace)) s s' h' ∧
      (delivery cfg reply (sendCount s.trace)).ending.Leaves h record s.state s'.state := by
  unfold deliverOne delivery
  by_cases hq : cfg.retryQueue = true
  · rw [if_pos hq, if_pos hq]
    exact deliverQueued_eval reply i hdata hoff hh hcached hfresh
  · rw [if_neg hq, if_neg hq]
    obtain ⟨s', h', hrun, hd, hqueue⟩ := deliverInline_eval reply i hdata hoff cfg.maxAttempts.toNat
      (by decide : 1 ≤ 1025) hh hcached
    exact ⟨s', h', hrun, hd, Ending.leaves_of_ne (course_not_queued reply _ _ _) hqueue⟩

end Steps

end A2AEvents
