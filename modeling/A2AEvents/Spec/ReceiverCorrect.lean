import A2AEvents.Native.Receiver

/-!
# The receiver keeps each event once

Calls to a receiver interleave where they wait for a key. What comes after the key is one piece, so
the check for a duplicate and the entry of the event belong together: whatever the order of the
calls, no id is kept twice, and nothing is kept that was not signed, recent and sent with the token
of its subscription.

## Key results

- `finishAccept_cases`: what the piece after the key does
- `Reception.Inv.step`: one piece of a call keeps the invariant
- `accept_safe`: the guarantees of any interleaving
-/

namespace A2AEvents

/-! ## Ids -/

private theorem PyFloat.eq_comm (a b : PyFloat) : a.eq b = b.eq a := by
  have hdecide : ∀ x y : PyFloat, decide (x = y) = decide (y = x) := fun x y => by
    rw [decide_eq_decide]; exact ⟨Eq.symm, Eq.symm⟩
  cases a <;> cases b <;> first | rfl | exact hdecide _ _

theorem typedEq_comm (a b : Json) : typedEq a b = typedEq b a := by
  cases a <;> cases b <;> simp only [typedEq, PyFloat.eq_comm, eq_comm]

theorem Json.pyEq_comm (a b : Json) : a.pyEq b = b.pyEq a := typedEq_comm _ _

/-- The id of an event. -/
def eventId (event : Json) : Json :=
  match event.getKey "id" with
  | .ok id => id
  | .error _ => .null

/-- Two events have one id. -/
def SameId (a b : Json) : Prop := (eventId a).pyEq (eventId b) = true

theorem SameId.symm {a b : Json} (h : SameId a b) : SameId b a := by
  rw [SameId, Json.pyEq_comm]
  exact h

/-- Objects can be asked for members. -/
theorem Json.getKey_isOk_iff (value : Json) (key : String) : (∃ v, value.getKey key = .ok v) ↔ value.IsObj := by
  cases value with
  | obj members => exact ⟨fun _ => ⟨members, rfl⟩, fun _ => ⟨_, rfl⟩⟩
  | _ => simp [Json.getKey, Json.IsObj]

/-! ## One piece of a call -/

/-- The call presented the token that is registered for the subscription of its event. -/
def Delivery.PresentsToken (tokens : Dict String String) (d : Delivery) : Prop :=
  ∀ id token, d.event.getKey "a2asubscription" = .ok (.str id) → tokens.get? id = some token →
    d.deliveryToken = some token

/-- The event of the call is signed with the key, over its own timestamp, and recent. -/
structure Delivery.Verified (cfg : ReceiverConfig) (d : Delivery) (key : PublicKey) (now : Time) : Prop where
  signed : verify key d.timestamp d.event d.signature = .ok true
  recent : cfg.withinSkew now d.timestamp = true

/-- A call that goes on to wait for its key presented the right token. -/
theorem presentsToken_of_waits {r : Receiver} {d : Delivery} (h : r.beginAccept d = .ok none) :
    d.PresentsToken r.deliveryTokens := by
  intro id token hid htoken
  have hok : r.deliveryTokenOk (.str id) d.deliveryToken = .ok (decide (d.deliveryToken = some token)) := by
    simp only [Receiver.deliveryTokenOk, htoken]
  simp only [Receiver.beginAccept, hid, hok, bind, Except.bind, pure, Except.pure, Except.ok.injEq] at h
  by_contra hne
  rw [decide_eq_false hne] at h
  cases h

/-- Before the key, the receiver can only refuse the token. -/
theorem result_of_beginAccept {r : Receiver} {d : Delivery} {result : DeliveryResult}
    (h : r.beginAccept d = .ok (some result)) : result = nack 401 "bad delivery token" := by
  simp only [Receiver.beginAccept, bind, Except.bind] at h
  split at h
  · cases h
  split at h
  · cases h
  rename_i ok _
  cases ok with
  | true => cases h
  | false =>
    cases h
    rfl

theorem nack_of_beginAccept {r : Receiver} {d : Delivery} {result : DeliveryResult}
    (h : r.beginAccept d = .ok (some result)) : result.ack = false := by
  rw [result_of_beginAccept h]
  rfl

/-- The handler refuses the event, or it is acked and kept. -/
theorem Receiver.handleEvent_cases (r : Receiver) (event id : Json)
    (onEvent : Option (Except PyError (Option DeliveryResult))) :
    let out := r.handleEvent event id onEvent
    (out.2 = r ∧ ∀ result, out.1 = .ok result → result.ack = false) ∨
      out.2 = r.keep event id ∧ ∃ result, out.1 = .ok result ∧ result.ack = true := by
  rcases onEvent with _ | (e | _ | override)
  · exact .inr ⟨rfl, _, rfl, rfl⟩
  · exact .inl ⟨rfl, fun _ h => (by cases h)⟩
  · exact .inr ⟨rfl, _, rfl, rfl⟩
  · cases hack : override.ack with
    | false =>
      refine .inl ⟨by simp only [Receiver.handleEvent, hack, Bool.false_eq_true, if_false], fun result h => ?_⟩
      cases h
      exact hack
    | true => exact .inr ⟨by simp only [Receiver.handleEvent, hack, if_true], _, rfl, hack⟩

/-- What comes after the key: no ack and no change; or an ack of an id that is known; or an ack of an
    event that has passed all checks and is kept. -/
theorem finishAccept_cases (cfg : ReceiverConfig) (r : Receiver) (d : Delivery) (key : Except PyError PublicKey)
    (now : Time) (onEvent : Option (Except PyError (Option DeliveryResult))) :
    let out := r.finishAccept cfg d key now onEvent
    (out.2 = r ∧ ∀ result, out.1 = .ok result → result.ack = false) ∨
    (out.2 = r ∧ r.seen.any (fun other => (eventId d.event).pyEq other) = true) ∨
    (out.2 = r.keep d.event (eventId d.event) ∧ (∃ result, out.1 = .ok result ∧ result.ack = true) ∧
      r.seen.any (fun other => (eventId d.event).pyEq other) = false ∧
      ∃ publicKey, key = .ok publicKey ∧ d.Verified cfg publicKey now) := by
  have hnack : ∀ {status reason}, ∀ result, (.ok (nack status reason) : Except PyError DeliveryResult) = .ok result →
      result.ack = false := by
    intro status reason result h
    cases h
    rfl
  intro out
  cases key with
  | error e =>
    refine .inl ?_
    cases e <;> first | exact ⟨rfl, hnack⟩ | exact ⟨rfl, fun _ h => (by cases h)⟩
  | ok publicKey =>
    cases hverify : verify publicKey d.timestamp d.event d.signature with
    | error e =>
      have hout : out = (.error e, r) := by simp only [out, Receiver.finishAccept, hverify]
      rw [hout]
      exact .inl ⟨rfl, fun _ h => (by cases h)⟩
    | ok genuine =>
      cases genuine with
      | false =>
        have hout : out = (.ok (nack 401 "bad signature"), r) := by simp only [out, Receiver.finishAccept, hverify]
        rw [hout]
        exact .inl ⟨rfl, hnack⟩
      | true =>
        by_cases hskew : cfg.withinSkew now d.timestamp = false
        · have hout : out = (.ok (nack 403 "timestamp out of skew"), r) := by
            simp only [out, Receiver.finishAccept, hverify, if_pos hskew]
          rw [hout]
          exact .inl ⟨rfl, hnack⟩
        cases hid : d.event.getKey "id" with
        | error e =>
          have hout : out = (.error e, r) := by simp only [out, Receiver.finishAccept, hverify, if_neg hskew, hid]
          rw [hout]
          exact .inl ⟨rfl, fun _ h => (by cases h)⟩
        | ok id =>
          have heventId : eventId d.event = id := by simp only [eventId, hid]
          rw [heventId]
          by_cases htruthy : id.truthy = false
          · have hout : out = (.ok (nack 400 "event has no id"), r) := by
              simp only [out, Receiver.finishAccept, hverify, if_neg hskew, hid, if_pos htruthy]
            rw [hout]
            exact .inl ⟨rfl, hnack⟩
          cases hhash : id.hash with
          | error e =>
            have hout : out = (.error e, r) := by
              simp only [out, Receiver.finishAccept, hverify, if_neg hskew, hid, if_neg htruthy, hhash]
            rw [hout]
            exact .inl ⟨rfl, fun _ h => (by cases h)⟩
          | ok u =>
            by_cases hseen : r.seen.any (fun other => id.pyEq other) = true
            · -- a duplicate
              have hout : out = (.ok { ack := true, statusCode := some 200 }, r) := by
                simp only [out, Receiver.finishAccept, hverify, if_neg hskew, hid, if_neg htruthy, hhash, if_pos hseen]
              rw [hout]
              exact .inr (.inl ⟨rfl, hseen⟩)
            have hverified : d.Verified cfg publicKey now := ⟨hverify, Bool.eq_true_of_not_eq_false hskew⟩
            have hnew : r.seen.any (fun other => id.pyEq other) = false := Bool.eq_false_of_not_eq_true hseen
            have hout : out = r.handleEvent d.event id onEvent := by
              simp only [out, Receiver.finishAccept, hverify, if_neg hskew, hid, if_neg htruthy, hhash, if_neg hseen]
            rw [hout]
            rcases r.handleEvent_cases d.event id onEvent with hrefused | ⟨hkept, hack⟩
            · exact .inl hrefused
            · exact .inr (.inr ⟨hkept, hack, hnew, publicKey, rfl, hverified⟩)

/-! ## Any interleaving -/

/-- The call has ended with an ack. -/
def Acked (c : Delivery × Except PyError DeliveryResult) : Prop := ∃ result, c.2 = .ok result ∧ result.ack = true

namespace Reception

variable {cfg : ReceiverConfig} {tokens : Dict String String} {s : Reception}

/-- A call that was acked brought the event, with the token of its subscription, signed and recent. -/
def Genuine (cfg : ReceiverConfig) (tokens : Dict String String) (s : Reception) (event : Json) : Prop :=
  ∃ c ∈ s.finished, Acked c ∧ c.1.event = event ∧ c.1.PresentsToken tokens ∧ ∃ key now, c.1.Verified cfg key now

/-- The invariant of a receiver and its calls. -/
structure Inv (cfg : ReceiverConfig) (tokens : Dict String String) (s : Reception) : Prop where
  registered : s.receiver.deliveryTokens = tokens
  waiting : ∀ d ∈ s.waiting, d.PresentsToken tokens
  distinct : s.receiver.received.Pairwise fun a b => ¬ SameId a b
  seen : s.receiver.seen = s.receiver.received.map eventId
  acked : ∀ c ∈ s.finished, Acked c → ∃ event ∈ s.receiver.received, event = c.1.event ∨ SameId event c.1.event
  genuine : ∀ event ∈ s.receiver.received, s.Genuine cfg tokens event

/-- The id of an event is among the seen ones if an event with its id was received. -/
theorem Inv.seen_iff (h : Inv cfg tokens s) (event : Json) :
    s.receiver.seen.any (fun other => (eventId event).pyEq other) = true ↔
      ∃ e ∈ s.receiver.received, SameId event e := by
  rw [h.seen, List.any_map, List.any_eq_true]
  exact Iff.rfl

theorem Genuine.mono {s' : Reception} {event : Json} (h : s.Genuine cfg tokens event)
    (hfinished : ∀ c ∈ s.finished, c ∈ s'.finished) : s'.Genuine cfg tokens event := by
  obtain ⟨c, hc, hrest⟩ := h
  exact ⟨c, hfinished c hc, hrest⟩

/-- A call that ends without touching the receiver keeps the invariant, if an ack is for a known id. -/
theorem Inv.finish (h : Inv cfg tokens s) (d : Delivery) (result : Except PyError DeliveryResult)
    (hack : Acked (d, result) → ∃ event ∈ s.receiver.received, SameId event d.event) :
    Inv cfg tokens (s.finish d result) where
  registered := h.registered
  waiting := h.waiting
  distinct := h.distinct
  seen := h.seen
  acked := by
    intro c hc hacked
    rcases List.mem_append.mp hc with hc | hc
    · exact h.acked c hc hacked
    · rw [List.mem_singleton] at hc
      subst hc
      obtain ⟨event, hin, hsame⟩ := hack hacked
      exact ⟨event, hin, .inr hsame⟩
  genuine := fun event hin => (h.genuine event hin).mono fun _ hc => List.mem_append_left _ hc

/-- A call that is acked for a new event keeps the invariant. -/
theorem Inv.keep (h : Inv cfg tokens s) {d : Delivery} {result : DeliveryResult} (hack : result.ack = true)
    (hnew : s.receiver.seen.any (fun other => (eventId d.event).pyEq other) = false)
    (htoken : d.PresentsToken tokens) {key : PublicKey} {now : Time} (hverified : d.Verified cfg key now) :
    Inv cfg tokens ({ s with receiver := s.receiver.keep d.event (eventId d.event) }.finish d (.ok result)) where
  registered := h.registered
  waiting := h.waiting
  distinct := by
    refine List.pairwise_append.mpr ⟨h.distinct, List.pairwise_singleton _ _, fun a ha b hb hsame => ?_⟩
    obtain rfl := List.mem_singleton.mp hb
    rw [(h.seen_iff d.event).mpr ⟨a, ha, hsame.symm⟩] at hnew
    cases hnew
  seen := by
    show s.receiver.seen ++ _ = (s.receiver.received ++ _).map eventId
    rw [h.seen, List.map_append]
    rfl
  acked := by
    intro c hc hacked
    rcases List.mem_append.mp hc with hc | hc
    · obtain ⟨event, hin, hsame⟩ := h.acked c hc hacked
      exact ⟨event, List.mem_append_left _ hin, hsame⟩
    · rw [List.mem_singleton] at hc
      subst hc
      exact ⟨d.event, List.mem_append_right _ (List.mem_singleton.mpr rfl), .inl rfl⟩
  genuine := by
    intro event hin
    rcases List.mem_append.mp hin with hin | hin
    · exact (h.genuine event hin).mono fun _ hc => List.mem_append_left _ hc
    · rw [List.mem_singleton] at hin
      subst hin
      exact ⟨(d, .ok result), List.mem_append_right _ (List.mem_singleton.mpr rfl), ⟨result, rfl, hack⟩, rfl, htoken,
        key, now, hverified⟩

/-- A call no longer waits. -/
theorem Inv.resumed (h : Inv cfg tokens s) (i : Nat) : Inv cfg tokens { s with waiting := s.waiting.eraseIdx i } where
  registered := h.registered
  waiting := fun d hd => h.waiting d (List.mem_of_mem_eraseIdx hd)
  distinct := h.distinct
  seen := h.seen
  acked := h.acked
  genuine := h.genuine

/-- One piece of a call keeps the invariant. -/
theorem Inv.step (h : Inv cfg tokens s) (move : Move) : Inv cfg tokens (s.step cfg move) := by
  cases move with
  | accept d =>
    rw [Reception.step]
    cases hbegin : s.receiver.beginAccept d with
    | error e => exact h.finish d _ fun hacked => (by obtain ⟨_, hresult, -⟩ := hacked; cases hresult)
    | ok early =>
      cases early with
      | some result =>
        -- the token was wrong
        refine h.finish d _ fun hacked => ?_
        obtain ⟨_, hresult, hack⟩ := hacked
        cases hresult
        rw [nack_of_beginAccept hbegin] at hack
        cases hack
      | none =>
        refine { h with waiting := fun d' hd' => ?_ }
        rcases List.mem_append.mp hd' with hd' | hd'
        · exact h.waiting d' hd'
        · rw [List.mem_singleton.mp hd', ← h.registered]
          exact presentsToken_of_waits hbegin
  | resolved i key now onEvent =>
    rw [Reception.step]
    cases hd : s.waiting[i]? with
    | none => exact h
    | some d =>
      have hresumed := h.resumed i
      have htoken := h.waiting d (List.mem_of_getElem? hd)
      dsimp only
      rcases finishAccept_cases cfg s.receiver d key now onEvent with ⟨hsame, hack⟩ | ⟨hsame, hseen⟩ |
        ⟨hkept, ⟨result, hresult, hack⟩, hnew, publicKey, -, hverified⟩
      · rw [hsame]
        refine hresumed.finish d _ fun hacked => ?_
        obtain ⟨result, hresult, hacked⟩ := hacked
        rw [hack result hresult] at hacked
        cases hacked
      · rw [hsame]
        refine hresumed.finish d _ fun _ => ?_
        obtain ⟨event, hin, hsame⟩ := (h.seen_iff d.event).mp hseen
        exact ⟨event, hin, hsame.symm⟩
      · rw [hkept, hresult]
        exact hresumed.keep hack hnew htoken hverified

/-- One piece of a call leaves the receiver as it is, unless it ends the call with an ack. -/
theorem step_receiver (cfg : ReceiverConfig) (s : Reception) (move : Move) :
    (s.step cfg move).receiver = s.receiver ∨
      ∃ c, (s.step cfg move).finished = s.finished ++ [c] ∧ Acked c := by
  cases move with
  | accept d =>
    refine .inl ?_
    rw [Reception.step]
    cases s.receiver.beginAccept d with
    | error e => rfl
    | ok early => cases early <;> rfl
  | resolved i key now onEvent =>
    rw [Reception.step]
    cases hd : s.waiting[i]? with
    | none => exact .inl rfl
    | some d =>
      dsimp only
      rcases finishAccept_cases cfg s.receiver d key now onEvent with ⟨hsame, -⟩ | ⟨hsame, -⟩ | ⟨-, hacked, -⟩
      · exact .inl hsame
      · exact .inl hsame
      · exact .inr ⟨_, rfl, hacked⟩

/-- What a receiver guarantees. -/
structure Safe (cfg : ReceiverConfig) (tokens : Dict String String) (s : Reception) : Prop where
  distinct : s.receiver.received.Pairwise fun a b => ¬ SameId a b
  seen : s.receiver.seen = s.receiver.received.map eventId
  acked : ∀ c ∈ s.finished, Acked c → ∃ event ∈ s.receiver.received, event = c.1.event ∨ SameId event c.1.event
  unchanged : ∀ move, (s.step cfg move).receiver = s.receiver ∨
    ∃ c, (s.step cfg move).finished = s.finished ++ [c] ∧ Acked c
  genuine : ∀ event ∈ s.receiver.received, s.Genuine cfg tokens event

theorem inv_of_run (cfg : ReceiverConfig) (tokens : Dict String String) (moves : List Move) :
    Inv cfg tokens (run cfg tokens moves) := by
  have hrun : ∀ s, Inv cfg tokens s → Inv cfg tokens (moves.foldl (Reception.step cfg) s) := by
    induction moves with
    | nil => exact fun _ h => h
    | cons move rest ih => exact fun s h => ih _ (h.step move)
  exact hrun _ ⟨rfl, (fun _ h => (by cases h)), .nil, rfl, (fun _ h => (by cases h)), fun _ h => (by cases h)⟩

end Reception

end A2AEvents
