import A2AEvents.Spec.AdmissionCorrect
import A2AEvents.Spec.ReceiverCorrect
import A2AEvents.Spec.SigningInput
import A2AEvents.Spec.SkewCorrect

/-!
# From the publisher to the receiver

Between a publisher and a receiver lies a network that may lose, delay, repeat and alter what is sent, and
on which others may speak as well. As long as nobody but the publisher can sign, what the receiver keeps
was sent by the publisher, for a reason, and is kept once. If an ack reaches the publisher only when the
receiver gave it, what is noted as delivered has been kept, exactly once.

## Key results

- `Unforgeable`: only what the publisher signed is verified
- `authentic_of_run`: events that are kept are those of rightful sends, and none is kept twice
- `kept_of_run`: what is noted as delivered is kept exactly once
-/

namespace A2AEvents

open Async Publisher

variable {cfg : PublisherConfig} {fuel : Nat} {s : Snapshot cfg fuel}

/-! ## The network -/

/-- The event that a frame carries. -/
def Frame.event? : Frame → Option Json
  | .webhook _ _ body => some body
  | .a2aMessage _ message => (deliveryEnvelope message).map Prod.fst

theorem frameDelivery_event (cfg : PublisherConfig) (sub : Subscription) (event : Json)
    (signature timestamp hex : String) : (frameDelivery cfg sub event signature timestamp hex).event? = some event := by
  cases hmode : sub.delivery.mode with
  | webhook =>
    simp only [frameDelivery, hmode]
    rfl
  | a2aMessage =>
    simp only [frameDelivery, hmode]
    rfl

/-- The publisher sent the event, with the time of its record. -/
def Sends (s : Snapshot cfg fuel) (sub : Subscription) (record : EventRecord) (sent : Json) : Prop :=
  ∃ (i : Nat) (n : Nat) (frame : Frame) (result : Except PyError DeliveryResult),
    s.received i (.send sub record n frame) result ∧ frame.event? = some sent

/-- The key verifies nothing but what the publisher signed for its sends. -/
def Unforgeable (s : Snapshot cfg fuel) (key : PublicKey) : Prop :=
  ∀ raw message, key.verifyRaw raw message = true → ∃ sub record sent, Sends s sub record sent ∧
    signingInput (cfg.isoformat record.createdAt) sent = .ok message

/-- The publisher is told of an ack only if the receiver gave it for the event that was sent. -/
def AcksTruly (serves : String → Prop) (s : Snapshot cfg fuel) (r : Reception) : Prop :=
  ∀ (i : Nat) (sub : Subscription) (record : EventRecord) (n : Nat) (frame : Frame) (result : DeliveryResult),
    s.received i (.send sub record n frame) (.ok result) → result.ack = true → serves sub.subscriptionId →
      ∃ call ∈ r.finished, Acked call ∧ frame.event? = some call.1.event

/-! ## What the receiver keeps -/

/-- The event was brought by a call that went on with one of the keys. -/
def Brought (rcfg : ReceiverConfig) (moves : List Reception.Move) (event : Json) : Prop :=
  ∃ (d : Delivery) (i : Nat) (key : PublicKey) (now : Time) (onEvent : Option (Except PyError (Option DeliveryResult))),
    .resolved i (.ok key) now onEvent ∈ moves ∧ d.event = event ∧ d.Verified rcfg key now

theorem Brought.mono {rcfg : ReceiverConfig} {moves more : List Reception.Move} {event : Json}
    (h : Brought rcfg moves event) : Brought rcfg (moves ++ more) event := by
  obtain ⟨d, i, key, now, onEvent, hmem, hrest⟩ := h
  exact ⟨d, i, key, now, onEvent, List.mem_append_left _ hmem, hrest⟩

/-- Whatever is kept was verified with a key that some call went on with. -/
theorem brought_of_received (rcfg : ReceiverConfig) (tokens : Dict String String) (moves : List Reception.Move) :
    ∀ event ∈ (Reception.run rcfg tokens moves).receiver.received, Brought rcfg moves event := by
  induction moves using List.reverseRecOn with
  | nil => exact fun _ h => (by cases h)
  | append_singleton moves move ih =>
    rw [Reception.run, List.foldl_append]
    show ∀ event ∈ ((Reception.run rcfg tokens moves).step rcfg move).receiver.received, _
    intro event hevent
    cases move with
    | accept d =>
      -- before the key, nothing is kept
      have hsame : ((Reception.run rcfg tokens moves).step rcfg (.accept d)).receiver =
          (Reception.run rcfg tokens moves).receiver := by
        rw [Reception.step]
        split
        · rfl
        · rfl
        · rfl
      rw [hsame] at hevent
      exact (ih event hevent).mono
    | resolved i key now onEvent =>
      rw [Reception.step] at hevent
      split at hevent
      · exact (ih event hevent).mono
      · rename_i d hd
        rcases finishAccept_cases rcfg (Reception.run rcfg tokens moves).receiver d key now onEvent with
          ⟨hsame, -⟩ | ⟨hsame, -⟩ | ⟨hkept, -, -, publicKey, hkey, hverified⟩
        · simp only [Reception.finish, hsame] at hevent
          exact (ih event hevent).mono
        · simp only [Reception.finish, hsame] at hevent
          exact (ih event hevent).mono
        · simp only [Reception.finish, hkept, Receiver.keep] at hevent
          rcases List.mem_append.mp hevent with hold | hnew
          · exact (ih event hold).mono
          · subst hkey
            exact ⟨d, i, publicKey, now, onEvent, List.mem_append_right _ (List.mem_singleton.mpr rfl),
              (List.mem_singleton.mp hnew).symm, hverified⟩

/-! ## Authenticity -/

/-- The signing input of an event. -/
theorem input_of_signed {timestamp : String} {event : Json} {message : Bytes}
    (h : signingInput timestamp event = .ok message) :
    ∃ text, canon event = .ok text ∧ message = encodeUtf8 (timestamp ++ "." ++ String.ofList text) := by
  cases hc : canon event with
  | error e => simp [signingInput, canonicalize, hc, Except.map] at h
  | ok text =>
    simp only [signingInput, canonicalize, hc, Except.map, Except.ok.injEq] at h
    refine ⟨text, rfl, ?_⟩
    rw [← h]
    simp [encodeUtf8, String.toByteArray_append, ByteArray.data_append]

/-- One message is signed for one time and one event, up to the order of members. -/
theorem signed_same {t₁ t₂ : String} {e₁ e₂ : Json} (h₁ : e₁.exact = true) (h₂ : e₂.exact = true) {message : Bytes}
    (hin₁ : signingInput t₁ e₁ = .ok message) (hin₂ : signingInput t₂ e₂ = .ok message) :
    t₁ = t₂ ∧ Json.Same e₁ e₂ := by
  obtain ⟨s₁, hs₁, rfl⟩ := input_of_signed hin₁
  obtain ⟨s₂, hs₂, heq⟩ := input_of_signed hin₂
  have htexts := congrArg String.toList (encodeUtf8_inj heq)
  simp only [String.toList_append, String.toList_ofList, List.append_assoc] at htexts
  obtain ⟨ht, hs⟩ := dot_inj (closed_canon h₁ hs₁) (closed_canon h₂ hs₂) htexts
  exact ⟨String.toList_inj.mp ht, (canon_separates h₁ h₂ hs₁ hs₂).2 hs⟩

/-- The event is one that a subscriber was sent for a reason, under the time of its record. Where both are without
    floats, it is the event that was sent, up to the order of members. -/
def Authentic (s : Snapshot cfg fuel) (event : Json) : Prop :=
  ∃ sub record n frame sent timestamp message, Rightful s sub record n frame ∧ frame.event? = some sent ∧
    signingInput timestamp event = .ok message ∧ signingInput (cfg.isoformat record.createdAt) sent = .ok message ∧
      (event.exact = true → sent.exact = true → timestamp = cfg.isoformat record.createdAt ∧ Json.Same event sent)

/-- What is verified has a signing input, which the key accepted. -/
theorem Delivery.Verified.message {rcfg : ReceiverConfig} {d : Delivery} {key : PublicKey} {now : Time}
    (h : d.Verified rcfg key now) : ∃ raw message, signingInput d.timestamp d.event = .ok message ∧
      key.verifyRaw raw message = true := by
  have hsigned := h.signed
  unfold verify at hsigned
  split at hsigned
  · cases hsigned
  · rename_i raw _
    split at hsigned
    · rename_i message hmessage
      exact ⟨raw, message, hmessage, Except.ok.inj hsigned⟩
    · cases hsigned
    · cases hsigned

section

variable {backend : Backend} {clock : Time} {authorizer : Option AllowlistAuthorizer} {c : Run.Config cfg fuel}

/-- Whoever speaks on the network, and however calls interleave on either side: if only what the publisher signed is
    verified, the receiver keeps only events that were sent for a reason, and none of them twice. -/
theorem authentic_of_run (hrun : Config.Run ClientsCall (initial cfg fuel backend clock authorizer) c)
    (rcfg : ReceiverConfig) (tokens : Dict String String) {moves : List Reception.Move}
    (hkeys : ∀ i key now onEvent, .resolved i (.ok key) now onEvent ∈ moves → Unforgeable c.state key) :
    let received := (Reception.run rcfg tokens moves).receiver.received
    received.Pairwise (fun a b => ¬ SameId a b) ∧ ∀ event ∈ received, Authentic c.state event := by
  refine ⟨(Reception.inv_of_run rcfg tokens moves).distinct, fun event hevent => ?_⟩
  obtain ⟨d, i, key, now, onEvent, hmove, rfl, hverified⟩ := brought_of_received rcfg tokens moves event hevent
  obtain ⟨raw, message, hmessage, hraw⟩ := hverified.message
  obtain ⟨sub, record, sent, ⟨k, n, frame, result, ⟨before, hentry⟩, hcarries⟩, hsigned⟩ :=
    hkeys i key now onEvent hmove raw message hraw
  obtain ⟨-, hbacked⟩ := backed_of_run hrun
  have hrightful : Rightful c.state sub record n frame := hbacked.told _ hentry
  exact ⟨sub, record, n, frame, sent, d.timestamp, message, hrightful, hcarries, hmessage, hsigned,
    fun hexact hsent => signed_same hexact hsent hmessage hsigned⟩

/-! ## Exactly once -/

theorem pyEq_str_iff {v : Json} {text : String} : v.pyEq (.str text) = true ↔ v = .str text := by
  cases v with
  | bool b => cases b <;> simp [Json.pyEq, Json.unbool, typedEq]
  | _ => simp [Json.pyEq, Json.unbool, typedEq]

/-- In a list of events with distinct ids, an id that is there is there once. -/
theorem countP_of_distinct {events : List Json} {id : String} (hdistinct : events.Pairwise fun a b => ¬ SameId a b)
    {event : Json} (hmem : event ∈ events) (hid : eventId event = .str id) :
    (events.countP fun e => (eventId e).pyEq (.str id)) = 1 := by
  induction events with
  | nil => cases hmem
  | cons first rest ih =>
    obtain ⟨hfirst, hrest⟩ := List.pairwise_cons.mp hdistinct
    rcases List.mem_cons.mp hmem with rfl | hmem
    · -- nothing that follows has this id
      have hnone : (rest.countP fun e => (eventId e).pyEq (.str id)) = 0 := by
        rw [List.countP_eq_zero]
        intro other hother hsame
        apply hfirst other hother
        rw [SameId, hid, pyEq_str_iff.mp hsame]
        exact pyEq_str_iff.mpr rfl
      rw [List.countP_cons, hnone, hid, if_pos (pyEq_str_iff.mpr rfl)]
    · have hne : ¬ (eventId first).pyEq (.str id) = true := by
        intro hsame
        apply hfirst event hmem
        rw [SameId, hid]
        exact hsame
      rw [List.countP_cons, if_neg hne, ih hrest hmem]

/-- What is noted as delivered to a subscription of the receiver has been kept, exactly once. -/
theorem kept_of_run (hrun : Config.Run ClientsCall (initial cfg fuel backend clock authorizer) c)
    (rcfg : ReceiverConfig) (tokens : Dict String String) {moves : List Reception.Move} {serves : String → Prop}
    (hacks : AcksTruly serves c.state (Reception.run rcfg tokens moves)) {attempt : DeliveryAttempt}
    (hattempt : attempt ∈ c.state.state.subs.attempts) (hstatus : attempt.status = .delivered)
    (hserves : serves attempt.subscriptionId) :
    ((Reception.run rcfg tokens moves).receiver.received.countP fun event =>
      (eventId event).pyEq (.str attempt.eventId)) = 1 := by
  obtain ⟨-, hbacked⟩ := backed_of_run hrun
  obtain ⟨i, sub, record, n, frame, result, hreceived, hack, hid, hevent⟩ := hbacked.delivered attempt hattempt hstatus
  rw [hid] at hserves
  obtain ⟨call, hcall, hacked, hcarries⟩ := hacks i sub record n frame result hreceived hack hserves
  -- the frame carries the event of the record
  have hidOf : eventId call.1.event = .str record.eventId := by
    obtain ⟨before, hentry⟩ := hreceived
    have hrightful : Rightful c.state sub record n frame := hbacked.told _ hentry
    obtain ⟨topic, signature, hex, -, -, hframe⟩ := hrightful.framed
    rw [hframe, frameDelivery_event] at hcarries
    rw [← Option.some.inj hcarries, eventId, getKey_id]
  have hinv := Reception.inv_of_run rcfg tokens moves
  obtain ⟨event, hmem, hsame⟩ := hinv.acked call hcall hacked
  refine countP_of_distinct hinv.distinct hmem ?_
  rw [hevent]
  rcases hsame with rfl | hsame
  · exact hidOf
  · rw [SameId, hidOf] at hsame
    exact pyEq_str_iff.mp hsame

end

namespace Sample

/-- A receiver that does not look at the age of events. -/
def timeless : ReceiverConfig := { maxSkew := none, fromIsoformat := fun _ => none }

/-- The deliveries on the network. -/
def deliveries (trace : List (Entry config 5)) : List Delivery :=
  trace.filterMap fun e => match e.op with
    | .send _ _ _ (.webhook _ headers body) => some (.ofWebhook headers body)
    | _ => none

/-- The messages that were signed for sends. -/
def signed (trace : List (Entry config 5)) : List Bytes :=
  trace.filterMap fun e => match e.op with
    | .send _ record _ frame => frame.event?.bind fun sent => (signingInput (config.isoformat record.createdAt) sent).toOption
    | _ => none

/-- The public key of the publisher, as no one else has the private one. -/
def verifier (trace : List (Entry config 5)) : PublicKey :=
  { verifyRaw := fun raw message => raw = message && (signed trace).contains message }

/-- One call after the other, each with the key of the publisher. -/
def calls (key : PublicKey) (ds : List Delivery) : List Reception.Move :=
  ds.flatMap fun d => [.accept d, .resolved 0 (.ok key) 0 none]

theorem verifier_unforgeable (s : Snapshot config 5) : Unforgeable s (verifier s.trace) := by
  intro raw message hverify
  simp only [verifier, Bool.and_eq_true, List.contains_iff_mem, signed, List.mem_filterMap] at hverify
  obtain ⟨-, e, he, hmessage⟩ := hverify
  obtain ⟨i, o, r, w⟩ := e
  cases o with
  | send sub record n frame =>
    obtain ⟨sent, hsent, hinput⟩ := Option.bind_eq_some_iff.mp hmessage
    refine ⟨sub, record, sent, ⟨i, n, frame, r, ⟨w, he⟩, hsent⟩, ?_⟩
    cases hsigned : signingInput (config.isoformat record.createdAt) sent with
    | error e => simp [hsigned, Except.toOption] at hinput
    | ok m => simpa [hsigned, Except.toOption] using hinput
  | _ => cases hmessage

theorem calls_keys {key key' : PublicKey} {ds : List Delivery} {i : Nat} {now : Time}
    {onEvent : Option (Except PyError (Option DeliveryResult))} (h : .resolved i (.ok key') now onEvent ∈ calls key ds) :
    key' = key := by
  obtain ⟨d, -, hmem⟩ := List.mem_flatMap.mp h
  simp only [List.mem_cons, reduceCtorEq, Reception.Move.resolved.injEq, Except.ok.injEq, false_or, List.not_mem_nil,
    or_false] at hmem
  exact hmem.2.1

/-- Calls that do not overlap end in the order in which they began, each with what `accept` returns. -/
theorem calls_finished (rcfg : ReceiverConfig) (tokens : Dict String String) (key : PublicKey) (ds : List Delivery) :
    let s := Reception.run rcfg tokens (calls key ds)
    s.finished.map Prod.fst = ds ∧ s.waiting = [] ∧ ∀ call ∈ s.finished, ∃ r : Receiver, r.deliveryTokens = tokens ∧
      call.2 = (r.accept rcfg (fun _ => .ok key) call.1 0 none).1 := by
  induction ds using List.reverseRecOn with
  | nil => exact ⟨rfl, rfl, fun _ h => (by cases h)⟩
  | append_singleton ds d ih =>
    have hregistered := (Reception.inv_of_run rcfg tokens (calls key ds)).registered
    obtain ⟨hfinished, hwaiting, haccepted⟩ := ih
    have hrun : Reception.run rcfg tokens (calls key (ds ++ [d])) =
        ((Reception.run rcfg tokens (calls key ds)).step rcfg (.accept d)).step rcfg (.resolved 0 (.ok key) 0 none) := by
      simp only [Reception.run, calls, List.flatMap_append, List.flatMap_cons, List.flatMap_nil, List.append_nil,
        List.foldl_append, List.foldl_cons, List.foldl_nil]
    rw [hrun]
    generalize Reception.run rcfg tokens (calls key ds) = s at hregistered hfinished hwaiting haccepted
    have hlast : ((s.step rcfg (.accept d)).step rcfg (.resolved 0 (.ok key) 0 none)).finished =
          s.finished ++ [(d, (s.receiver.accept rcfg (fun _ => .ok key) d 0 none).1)] ∧
        ((s.step rcfg (.accept d)).step rcfg (.resolved 0 (.ok key) 0 none)).waiting = [] := by
      cases hbegin : s.receiver.beginAccept d with
      | error e => simp [Reception.step, Receiver.accept, hbegin, Reception.finish, hwaiting]
      | ok early => cases early <;> simp [Reception.step, Receiver.accept, hbegin, Reception.finish, hwaiting]
    refine ⟨by rw [hlast.1, List.map_append, hfinished]; rfl, hlast.2, fun call hcall => ?_⟩
    rw [hlast.1] at hcall
    rcases List.mem_append.mp hcall with hold | hnew
    · exact haccepted call hold
    · rw [List.mem_singleton.mp hnew]
      exact ⟨s.receiver, hregistered, rfl⟩

/-- All sends are webhook requests, of events that have ids. -/
def posts (trace : List (Entry config 5)) : Bool :=
  trace.all fun e => match e.op with
    | .send _ record _ (.webhook ..) => record.eventId ≠ ""
    | .send .. => false
    | _ => true

/-- Deliveries of the publisher are acked. -/
theorem accept_sent {s : Snapshot config 5} (hs : Backed s) (hposts : posts s.trace = true) {d : Delivery}
    (hd : d ∈ deliveries s.trace) {r : Receiver} (hr : r.deliveryTokens = ∅) :
    ∃ result, (r.accept timeless (fun _ => .ok (verifier s.trace)) d 0 none).1 = .ok result ∧ result.ack = true := by
  obtain ⟨e, he, hframe⟩ := List.mem_filterMap.mp hd
  have hid := List.all_eq_true.mp hposts e he
  have hshows := hs.told e he
  obtain ⟨i, o, outcome, w⟩ := e
  cases o with
  | send sub record n frame =>
    have hrightful : Rightful s sub record n frame := hshows
    obtain ⟨topic, signature, hex, -, hsign, rfl⟩ := hrightful.framed
    cases hmode : sub.delivery.mode with
    | a2aMessage => simp [frameDelivery, hmode] at hframe
    | webhook =>
      have hplain : some (Delivery.ofWebhook [("A2A-Event-Signature", signature),
          ("A2A-Event-Timestamp", config.isoformat record.createdAt), ("A2A-Event-Key-ID", config.signingKey.kid),
          ("A2A-Subscription-ID", sub.subscriptionId)] (buildEvent config sub record n topic.schemaUrl)) = some d := by
        simp only [frameDelivery, hmode] at hframe
        exact hframe
      rw [ofWebhook_plain] at hplain
      cases hplain
      -- the message that was signed
      cases hinput : signingInput (config.isoformat record.createdAt) (buildEvent config sub record n topic.schemaUrl) with
      | error e => simp [SigningKey.sign, hinput, Except.map] at hsign
      | ok message =>
        have hsigned : message ∈ signed s.trace := by
          refine List.mem_filterMap.mpr ⟨_, he, ?_⟩
          simp only [frameDelivery_event, Option.bind_some, hinput, Except.toOption]
        have hverify : verify (verifier s.trace) (config.isoformat record.createdAt)
            (buildEvent config sub record n topic.schemaUrl) signature = .ok true := by
          rw [SigningKey.sign, hinput] at hsign
          cases hsign
          rw [verify, stripPrefix_append, b64urlDecode_b64url, hinput]
          simp [verifier, config, hsigned]
        have htoken : r.deliveryTokenOk (.str sub.subscriptionId) none = .ok true := by
          rw [Receiver.deliveryTokenOk, hr]
          rfl
        have htruthy : (Json.str record.eventId).truthy = true := by simpa [Json.truthy, frameDelivery, hmode] using hid
        simp only [Receiver.accept, Receiver.beginAccept, getKey_subscription, htoken, bind, Except.bind, pure, Except.pure,
          if_true, Receiver.finishAccept, hverify, getKey_id, htruthy, Json.hash]
        split
        · rename_i hskew
          cases hskew
        · split
          · rename_i hfalse
            cases hfalse
          · split
            · exact ⟨_, rfl, rfl⟩
            · exact ⟨_, rfl, rfl⟩
  | _ => cases hframe

theorem acksTruly {s : Snapshot config 5} (hs : Backed s) (hposts : posts s.trace = true) (serves : String → Prop) :
    AcksTruly serves s (Reception.run timeless ∅ (calls (verifier s.trace) (deliveries s.trace))) := by
  intro i sub record n frame result hreceived _ _
  obtain ⟨before, hentry⟩ := hreceived
  have hpost := List.all_eq_true.mp hposts _ hentry
  cases frame with
  | a2aMessage endpoint message => cases hpost
  | webhook url headers body =>
    have hmem : Delivery.ofWebhook headers body ∈ deliveries s.trace := List.mem_filterMap.mpr ⟨_, hentry, rfl⟩
    obtain ⟨hfinished, -, haccepted⟩ := calls_finished timeless ∅ (verifier s.trace) (deliveries s.trace)
    have hcall := hmem
    rw [← hfinished] at hcall
    obtain ⟨call, hcall, heq⟩ := List.mem_map.mp hcall
    obtain ⟨r, hr, hresult⟩ := haccepted call hcall
    rw [← heq] at hmem
    obtain ⟨result', haccept, hack⟩ := accept_sent hs hposts hmem hr
    exact ⟨call, hcall, ⟨result', hresult.trans haccept, hack⟩, by rw [heq]; rfl⟩

/-- The deliveries of a run, and what was noted of them. -/
theorem exchange : ∃ (c : Run.Config config 5) (attempt : DeliveryAttempt),
    Config.Run ClientsCall (initial config 5 .live 0 none) c ∧ posts c.state.trace = true ∧
      attempt ∈ c.state.state.subs.attempts ∧ attempt.status = .delivered := by
  have hrun : ((initial config 5 .live 0 none).runsWith startsNone afterwards).any (fun c =>
      posts c.state.trace && c.state.state.subs.attempts.any fun attempt => attempt.status = .delivered) = true := by
    decide +kernel
  obtain ⟨c, hc, hp⟩ := Config.Run.of_any hrun
  rw [Bool.and_eq_true, List.any_eq_true] at hp
  obtain ⟨hposts, attempt, hattempt, hstatus⟩ := hp
  exact ⟨c, attempt, hc.mono fun _ _ h => clientsCall_of_startsNone h, hposts, hattempt, of_decide_eq_true hstatus⟩

end Sample

/-- The receiver keeps the event that was sent. -/
theorem kept_of_run_sample : ∃ (c : Run.Config Sample.config 5) (moves : List Reception.Move) (attempt : DeliveryAttempt),
    Config.Run ClientsCall (initial Sample.config 5 .live 0 none) c ∧ attempt ∈ c.state.state.subs.attempts ∧
      ((Reception.run Sample.timeless ∅ moves).receiver.received.countP fun event =>
        (eventId event).pyEq (.str attempt.eventId)) = 1 := by
  obtain ⟨c, attempt, hrun, hposts, hattempt, hstatus⟩ := Sample.exchange
  have hacks := Sample.acksTruly (backed_of_run hrun).2 hposts fun _ => True
  exact ⟨c, _, attempt, hrun, hattempt, kept_of_run hrun Sample.timeless ∅ hacks hattempt hstatus trivial⟩

theorem authentic_of_run_sample : ∃ (c : Run.Config Sample.config 5) (moves : List Reception.Move) (event : Json),
    Config.Run ClientsCall (initial Sample.config 5 .live 0 none) c ∧
      event ∈ (Reception.run Sample.timeless ∅ moves).receiver.received ∧ Authentic c.state event := by
  obtain ⟨c, attempt, hrun, hposts, hattempt, hstatus⟩ := Sample.exchange
  obtain ⟨-, hs⟩ := backed_of_run hrun
  -- what was delivered is kept
  obtain ⟨i, sub, record, n, frame, result, hreceived, hack, -⟩ := hs.delivered attempt hattempt hstatus
  obtain ⟨call, hcall, hacked, -⟩ := Sample.acksTruly hs hposts (fun _ => True) i sub record n frame result hreceived hack trivial
  obtain ⟨event, hevent, -⟩ := (Reception.inv_of_run Sample.timeless ∅ _).acked call hcall hacked
  have hkeys : ∀ i key now onEvent, .resolved i (.ok key) now onEvent ∈
      Sample.calls (Sample.verifier c.state.trace) (Sample.deliveries c.state.trace) → Unforgeable c.state key := by
    intro i key now onEvent hmove
    rw [Sample.calls_keys hmove]
    exact Sample.verifier_unforgeable c.state
  obtain ⟨-, hauthentic⟩ := authentic_of_run hrun Sample.timeless ∅ hkeys
  exact ⟨c, _, event, hrun, hevent, hauthentic event hevent⟩

end A2AEvents
