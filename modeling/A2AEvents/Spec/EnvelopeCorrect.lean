import A2AEvents.Native.Envelope
import A2AEvents.Spec.CanonicalCorrect
import A2AEvents.Spec.ReceiverCorrect

/-!
# Untrusted messages

The receiver checks that a message is an envelope, and then uses what it finds there as an object, a
key or a text. Where it is none, the call raises.

## Key results

- `acceptRaw_eq_accept`: on texts, the untyped call is the typed one
- `acceptRaw_returns_iff`: the arguments on which a call returns
- `acceptA2aMessage_returns_iff`: the messages on which it returns
-/

namespace A2AEvents

/-! ## Texts -/

theorem verifyRaw_text (publicKey : PublicKey) (event : Json) (timestamp signature : String) :
    verifyRaw publicKey (.str timestamp) event (.str signature) = verify publicKey timestamp event signature := by
  unfold verifyRaw
  cases hdecode : b64urlDecode (stripPrefix signaturePrefix signature) with
  | error e => simp only [verify, hdecode]
  | ok raw => simp only [hdecode]

/-- A signature that cannot be decoded is not looked at further. -/
theorem verifyRaw_of_error {publicKey : PublicKey} {timestamp event : Json} {signature : String} {e : PyError}
    (h : b64urlDecode (stripPrefix signaturePrefix signature) = .error e) :
    verifyRaw publicKey timestamp event (.str signature) = .ok false := by
  unfold verifyRaw
  simp only [h]

/-- The other values cannot be verified. -/
theorem verifyRaw_of_text?_eq_none {publicKey : PublicKey} {timestamp event signature : Json}
    (h : signature.text? = none) :
    verifyRaw publicKey timestamp event signature = .error (.other "AttributeError") := by
  cases signature with
  | str s => cases h
  | _ => rfl

theorem verifyRaw_of_ok {publicKey : PublicKey} {timestamp event : Json} {signature : String} {raw : Bytes}
    (h : b64urlDecode (stripPrefix signaturePrefix signature) = .ok raw) (htimestamp : timestamp.text? = none) :
    verifyRaw publicKey timestamp event (.str signature) = .error (.other "AttributeError") := by
  unfold verifyRaw
  cases timestamp with
  | str s => cases htimestamp
  | _ => simp only [h]

/-- A call with texts is a call of `accept`. -/
theorem acceptRaw_eq_accept (cfg : ReceiverConfig) (r : Receiver) (resolveKey : Json → Except PyError PublicKey)
    (d : Delivery) (now : Time) (onEvent : Option (Except PyError (Option DeliveryResult))) :
    r.acceptRaw cfg resolveKey
        { event := d.event, keyId := .str d.keyId, timestamp := .str d.timestamp, signature := .str d.signature
          deliveryToken := (d.deliveryToken.map Json.str).getD .null } now onEvent =
      r.accept cfg (fun keyId => resolveKey (.str keyId)) d now onEvent := by
  have htoken : ((d.deliveryToken.map Json.str).getD .null).text? = d.deliveryToken := by
    cases d.deliveryToken <;> rfl
  simp only [Receiver.acceptRaw, Receiver.accept, Receiver.beginAccept, htoken, bind, Except.bind]
  cases hsub : d.event.getKey "a2asubscription" with
  | error e => rfl
  | ok subscriptionId =>
    cases hgood : r.deliveryTokenOk subscriptionId d.deliveryToken with
    | error e => simp only [hgood]
    | ok good =>
      cases good with
      | false =>
        simp only [hgood]
        rfl
      | true =>
        simp only [hgood]
        show _ = r.finishAccept cfg d (resolveKey (.str d.keyId)) now onEvent
        cases hkey : resolveKey (.str d.keyId) with
        | error e => cases e <;> rfl
        | ok publicKey =>
          simp only [Receiver.finishAccept, Receiver.acceptKeyed, verifyRaw_text, ReceiverConfig.withinSkewRaw]
          cases hverify : verify publicKey d.timestamp d.event d.signature with
          | error e => rfl
          | ok genuine =>
            cases genuine with
            | false => rfl
            | true =>
              cases hskew : cfg.withinSkew now d.timestamp with
              | false => rfl
              | true => rfl

/-! ## What a call needs -/

/-- The value can be a key of a dict. -/
def Json.Hashable (value : Json) : Prop := value.hash = .ok ()

/-- Nothing in the way of verifying: the signature is a text, and if it can be decoded, the timestamp
    is one, too. -/
def RawDelivery.Checkable (d : RawDelivery) : Prop :=
  ∃ signature, d.signature = .str signature ∧
    ∀ raw, b64urlDecode (stripPrefix signaturePrefix signature) = .ok raw → ∃ timestamp, d.timestamp = .str timestamp

/-- The event of the call is signed with the key, and recent. -/
def RawDelivery.Verified (cfg : ReceiverConfig) (d : RawDelivery) (key : PublicKey) (now : Time) : Prop :=
  verifyRaw key d.timestamp d.event d.signature = .ok true ∧ cfg.withinSkewRaw now d.timestamp = .ok true

/-- The call presents what is registered for the subscription of its event. -/
def RawDelivery.PresentsToken (r : Receiver) (d : RawDelivery) (subscriptionId : Json) : Prop :=
  r.deliveryTokenOk subscriptionId d.deliveryToken.text? = .ok true

/-- What the part of a call from the key on relies on. -/
structure RawDelivery.TypedFor (cfg : ReceiverConfig) (now : Time) (key : PublicKey) (d : RawDelivery) : Prop where
  checkable : d.Checkable
  id : d.Verified cfg key now → ∀ eventId, d.event.getKey "id" = .ok eventId → eventId.truthy = true → eventId.Hashable

/-- The types that a call relies on, each at the point that is reached: the event is an object whose
    subscription id can be a key; with the right token and a known key, verifying gets through; and
    the id of a verified event can be a key, or there is none. -/
structure RawDelivery.Typed (cfg : ReceiverConfig) (r : Receiver) (resolveKey : Json → Except PyError PublicKey)
    (now : Time) (d : RawDelivery) : Prop where
  event : d.event.IsObj
  subscription : ∀ v, d.event.getKey "a2asubscription" = .ok v → v.Hashable
  keyed : ∀ v key, d.event.getKey "a2asubscription" = .ok v → d.PresentsToken r v → resolveKey d.keyId = .ok key →
    d.TypedFor cfg now key

/-! ## One step after the other -/

theorem deliveryTokenOk_isOk_iff (r : Receiver) (subscriptionId : Json) (presented : Option String) :
    (∃ good, r.deliveryTokenOk subscriptionId presented = .ok good) ↔ subscriptionId.Hashable := by
  cases subscriptionId with
  | str id =>
    simp only [Receiver.deliveryTokenOk, Json.Hashable, Json.hash, iff_true]
    cases r.deliveryTokens.get? id <;> exact ⟨_, rfl⟩
  | _ => simp [Receiver.deliveryTokenOk, Json.Hashable, Json.hash, Except.map]

/-- An event without an encoding is not verified, and does not raise. -/
theorem verify_isOk {event : Json} (hevent : event.IsJson) (key : PublicKey) (timestamp signature : String) :
    ∃ genuine, verify key timestamp event signature = .ok genuine := by
  simp only [verify]
  split
  · exact ⟨_, rfl⟩
  · split
    · exact ⟨_, rfl⟩
    · exact ⟨_, rfl⟩
    · rename_i e hne hinput
      -- the signing input fails as the encoding does
      cases hcanon : canonicalize event with
      | ok body =>
        rw [signingInput, hcanon] at hinput
        cases hinput
      | error e' =>
        obtain ⟨message, rfl⟩ := canonicalize_error hevent hcanon
        rw [signingInput, hcanon] at hinput
        cases hinput
        exact absurd rfl (hne message)

theorem verifyRaw_isOk_iff {d : RawDelivery} (hevent : d.event.IsJson) (key : PublicKey) :
    (∃ genuine, verifyRaw key d.timestamp d.event d.signature = .ok genuine) ↔ d.Checkable := by
  cases hsignature : d.signature with
  | str signature =>
    cases hdecode : b64urlDecode (stripPrefix signaturePrefix signature) with
    | error e =>
      refine iff_of_true ⟨false, verifyRaw_of_error hdecode⟩ ⟨signature, hsignature, fun raw hraw => ?_⟩
      rw [hdecode] at hraw
      cases hraw
    | ok raw =>
      cases htimestamp : d.timestamp with
      | str timestamp =>
        rw [verifyRaw_text]
        exact iff_of_true (verify_isOk hevent key timestamp signature) ⟨signature, hsignature, fun _ _ => ⟨timestamp, htimestamp⟩⟩
      | _ =>
        rw [verifyRaw_of_ok hdecode rfl]
        refine iff_of_false (by simp) ?_
        rintro ⟨signature', hsignature', htext⟩
        rw [hsignature] at hsignature'
        cases hsignature'
        obtain ⟨timestamp, hts⟩ := htext raw hdecode
        rw [htimestamp] at hts
        cases hts
  | _ =>
    rw [verifyRaw_of_text?_eq_none rfl]
    simp [RawDelivery.Checkable, hsignature]

/-- A verified signature is over a text. -/
theorem withinSkewRaw_isOk (cfg : ReceiverConfig) {d : RawDelivery} {key : PublicKey} (now : Time)
    (hverify : verifyRaw key d.timestamp d.event d.signature = .ok true) :
    ∃ good, cfg.withinSkewRaw now d.timestamp = .ok good := by
  cases htimestamp : d.timestamp with
  | str timestamp => exact ⟨_, rfl⟩
  | _ =>
    cases hsignature : d.signature with
    | str signature =>
      rw [hsignature, htimestamp] at hverify
      cases hdecode : b64urlDecode (stripPrefix signaturePrefix signature) with
      | error e =>
        rw [verifyRaw_of_error hdecode] at hverify
        cases hverify
      | ok raw =>
        rw [verifyRaw_of_ok hdecode rfl] at hverify
        cases hverify
    | _ =>
      rw [hsignature, verifyRaw_of_text?_eq_none rfl] at hverify
      cases hverify

theorem handleEvent_isOk {r : Receiver} {event eventId : Json}
    {onEvent : Option (Except PyError (Option DeliveryResult))} (hhandler : ∀ e, onEvent ≠ some (.error e)) :
    ∃ res, (r.handleEvent event eventId onEvent).1 = .ok res := by
  simp only [Receiver.handleEvent]
  split
  · rename_i e
    exact absurd rfl (hhandler e)
  · exact ⟨_, rfl⟩
  · exact ⟨_, rfl⟩
  · exact ⟨_, rfl⟩

theorem acceptVerified_isOk_iff {r : Receiver} {event : Json}
    {onEvent : Option (Except PyError (Option DeliveryResult))} (hhandler : ∀ e, onEvent ≠ some (.error e))
    (hevent : event.IsObj) :
    (∃ res, (r.acceptVerified event onEvent).1 = .ok res) ↔
      ∀ eventId, event.getKey "id" = .ok eventId → eventId.truthy = true → eventId.Hashable := by
  obtain ⟨eventId, hid⟩ := (event.getKey_isOk_iff "id").mpr hevent
  simp only [Receiver.acceptVerified, hid, Except.ok.injEq, forall_eq']
  cases htruthy : eventId.truthy with
  | false => simp
  | true =>
    simp only [Bool.true_eq_false, if_false, Json.Hashable, forall_const]
    cases hhash : eventId.hash with
    | error e => simp
    | ok u =>
      simp only [iff_true]
      split
      · exact ⟨_, rfl⟩
      · exact handleEvent_isOk hhandler

/-! ## Calls -/

section

variable {cfg : ReceiverConfig} {r : Receiver} {resolveKey : Json → Except PyError PublicKey} {now : Time}
  {onEvent : Option (Except PyError (Option DeliveryResult))}

theorem acceptKeyed_isOk_iff {d : RawDelivery} {key : PublicKey} (hjson : d.event.IsJson) (hevent : d.event.IsObj)
    (hhandler : ∀ e, onEvent ≠ some (.error e)) :
    (∃ res, (r.acceptKeyed cfg key d now onEvent).1 = .ok res) ↔ d.TypedFor cfg now key := by
  have hcheck := verifyRaw_isOk_iff hjson key
  cases hverify : verifyRaw key d.timestamp d.event d.signature with
  | error e =>
    rw [hverify] at hcheck
    refine iff_of_false ?_ fun h => ?_
    · simp [Receiver.acceptKeyed, hverify]
    · obtain ⟨genuine, hok⟩ := hcheck.mpr h.checkable
      cases hok
  | ok genuine =>
    have hcheckable : d.Checkable := hcheck.mp ⟨genuine, hverify⟩
    cases genuine with
    | false =>
      refine iff_of_true ⟨nack 401 "bad signature", by simp only [Receiver.acceptKeyed, hverify]⟩ ⟨hcheckable, fun h => ?_⟩
      rw [RawDelivery.Verified, hverify] at h
      cases h.1
    | true =>
      obtain ⟨good, hskew⟩ := withinSkewRaw_isOk cfg now hverify
      cases good with
      | false =>
        refine iff_of_true ⟨nack 403 "timestamp out of skew", by simp only [Receiver.acceptKeyed, hverify, hskew]⟩
          ⟨hcheckable, fun h => ?_⟩
        rw [RawDelivery.Verified, hskew] at h
        cases h.2
      | true =>
        simp only [Receiver.acceptKeyed, hverify, hskew]
        rw [acceptVerified_isOk_iff hhandler hevent]
        exact ⟨fun h => ⟨hcheckable, fun _ => h⟩, fun h => h.id ⟨hverify, hskew⟩⟩

/-- A call returns exactly if its arguments have the types that it relies on. -/
theorem acceptRaw_isOk_iff {d : RawDelivery} (hjson : d.event.IsJson)
    (hresolve : ∀ keyId e, resolveKey keyId = .error e → ∃ key, e = .keyError key)
    (hhandler : ∀ e, onEvent ≠ some (.error e)) :
    (∃ res, (r.acceptRaw cfg resolveKey d now onEvent).1 = .ok res) ↔ d.Typed cfg r resolveKey now := by
  cases hsub : d.event.getKey "a2asubscription" with
  | error e =>
    refine iff_of_false ?_ fun h => ?_
    · simp [Receiver.acceptRaw, hsub]
    · obtain ⟨v, hv⟩ := (d.event.getKey_isOk_iff "a2asubscription").mpr h.event
      rw [hsub] at hv
      cases hv
  | ok subscriptionId =>
    have hevent : d.event.IsObj := (d.event.getKey_isOk_iff "a2asubscription").mp ⟨subscriptionId, hsub⟩
    have hone : ∀ v, d.event.getKey "a2asubscription" = .ok v → v = subscriptionId := by
      intro v hv
      rw [hsub] at hv
      exact (Except.ok.inj hv).symm
    have htoken := deliveryTokenOk_isOk_iff r subscriptionId d.deliveryToken.text?
    cases hgood : r.deliveryTokenOk subscriptionId d.deliveryToken.text? with
    | error e =>
      -- an id that cannot be a key
      rw [hgood] at htoken
      refine iff_of_false ?_ fun h => ?_
      · simp [Receiver.acceptRaw, hsub, hgood]
      · obtain ⟨good, hok⟩ := htoken.mpr (h.subscription subscriptionId hsub)
        cases hok
    | ok good =>
      have hhashable : ∀ v, d.event.getKey "a2asubscription" = .ok v → v.Hashable := by
        intro v hv
        rw [hone v hv]
        exact htoken.mp ⟨good, hgood⟩
      cases good with
      | false =>
        refine iff_of_true ⟨nack 401 "bad delivery token", by simp only [Receiver.acceptRaw, hsub, hgood]⟩
          ⟨hevent, hhashable, fun v key hv hpresents _ => ?_⟩
        rw [hone v hv, RawDelivery.PresentsToken, hgood] at hpresents
        cases hpresents
      | true =>
        have hpresents : d.PresentsToken r subscriptionId := hgood
        cases hkey : resolveKey d.keyId with
        | error e =>
          obtain ⟨key, rfl⟩ := hresolve _ _ hkey
          refine iff_of_true ⟨nack 401 "unknown signing key", by simp only [Receiver.acceptRaw, hsub, hgood, hkey]⟩
            ⟨hevent, hhashable, fun v k hv _ hk => ?_⟩
          rw [hkey] at hk
          cases hk
        | ok publicKey =>
          simp only [Receiver.acceptRaw, hsub, hgood, hkey]
          rw [acceptKeyed_isOk_iff hjson hevent hhandler]
          constructor
          · intro h
            refine ⟨hevent, hhashable, fun v k _ _ hk => ?_⟩
            rw [hkey] at hk
            rw [← Except.ok.inj hk]
            exact h
          · intro h
            exact h.keyed subscriptionId publicKey hsub hpresents hkey

/-! ## Messages -/

theorem isJson_of_item? {value item : Json} {key : String} (hvalue : value.IsJson) (h : value.item? key = some item) :
    item.IsJson := by
  cases hvalue with
  | obj hmembers =>
    rename_i members
    have hfound : ∃ m ∈ members, m.2 = item := by
      clear hmembers
      induction members with
      | nil => cases h
      | cons m rest ih =>
        obtain ⟨k, v⟩ := m
        simp only [Json.item?, Json.member?] at h
        split at h
        · cases h
          exact ⟨(k, item), List.mem_cons_self, rfl⟩
        · obtain ⟨m, hm, hv⟩ := ih h
          exact ⟨m, List.mem_cons_of_mem _ hm, hv⟩
    obtain ⟨m, hm, rfl⟩ := hfound
    exact hmembers m hm
  | _ => cases h

/-- The event in an envelope is JSON, as the message is. -/
theorem isJson_of_envelope {message event metadata : Json} (hmessage : message.IsJson)
    (h : deliveryEnvelope message = some (event, metadata)) : event.IsJson := by
  simp only [deliveryEnvelope] at h
  split at h
  · cases h
  · rename_i msg hmsg
    split at h
    · rename_i part parts metadata' hparts _
      obtain ⟨event', hevent, heq⟩ := Option.map_eq_some_iff.mp h
      cases heq
      have hlist := isJson_of_item? (isJson_of_item? hmessage hmsg) hparts
      cases hlist with
      | arr hitems => exact isJson_of_item? (hitems part List.mem_cons_self) hevent
    · cases h

theorem ofMessage_isOk_iff (event metadata : Json) :
    (∃ d, RawDelivery.ofMessage event metadata = .ok d) ↔ metadata.IsObj := by
  cases metadata with
  | obj members => exact ⟨fun _ => ⟨members, rfl⟩, fun _ => ⟨_, rfl⟩⟩
  | _ => simp [RawDelivery.ofMessage, Json.getKeyD, Json.IsObj, bind, Except.bind]

theorem event_ofMessage {event metadata : Json} {d : RawDelivery} (h : RawDelivery.ofMessage event metadata = .ok d) :
    d.event = event := by
  cases metadata with
  | obj members =>
    cases h
    rfl
  | _ => cases h

/-- The message is an envelope: it has an event and the metadata of the extension, both objects. -/
def IsEnvelope (message : Json) : Prop :=
  ∃ event metadata, deliveryEnvelope message = some (event, metadata) ∧ event.IsObj ∧ metadata.IsObj

/-- A call returns, and refuses what is no envelope, exactly if in a message that has an event and
    metadata, the metadata are an object and give arguments of the types that the call relies on. -/
theorem acceptA2aMessage_returns_iff (cfg : ReceiverConfig) (r : Receiver) (resolveKey : Json → Except PyError PublicKey)
    (message : Json) (now : Time) (onEvent : Option (Except PyError (Option DeliveryResult))) (hjson : message.IsJson)
    (hresolve : ∀ keyId e, resolveKey keyId = .error e → ∃ key, e = .keyError key)
    (hhandler : ∀ e, onEvent ≠ some (.error e)) :
    (∃ res, (r.acceptA2aMessage cfg resolveKey message now onEvent).1 = .ok res ∧
      (¬IsEnvelope message → res.ack = false ∧ res.retry = false)) ↔
    ∀ event metadata, deliveryEnvelope message = some (event, metadata) →
      metadata.IsObj ∧ ∀ d, RawDelivery.ofMessage event metadata = .ok d → d.Typed cfg r resolveKey now := by
  cases henvelope : deliveryEnvelope message with
  | none =>
    refine iff_of_true ⟨nack 400 "malformed envelope", ?_, fun _ => ⟨rfl, rfl⟩⟩ (by simp)
    simp only [Receiver.acceptA2aMessage, henvelope]
  | some p =>
    obtain ⟨event, metadata⟩ := p
    have hevent : event.IsJson := isJson_of_envelope hjson henvelope
    have hone : (∀ event' metadata', some (event, metadata) = some (event', metadata') →
        metadata'.IsObj ∧ ∀ d, RawDelivery.ofMessage event' metadata' = .ok d → d.Typed cfg r resolveKey now) ↔
        metadata.IsObj ∧ ∀ d, RawDelivery.ofMessage event metadata = .ok d → d.Typed cfg r resolveKey now := by
      constructor
      · intro h
        exact h event metadata rfl
      · intro h event' metadata' heq
        cases heq
        exact h
    rw [hone]
    cases hargs : RawDelivery.ofMessage event metadata with
    | error e =>
      refine iff_of_false ?_ fun h => ?_
      · simp [Receiver.acceptA2aMessage, henvelope, hargs]
      · obtain ⟨d, hd⟩ := (ofMessage_isOk_iff event metadata).mpr h.1
        rw [hargs] at hd
        cases hd
    | ok d =>
      have hmetadata : metadata.IsObj := (ofMessage_isOk_iff event metadata).mp ⟨d, hargs⟩
      have hd : d.event = event := event_ofMessage hargs
      have hcall : (∃ res, (r.acceptRaw cfg resolveKey d now onEvent).1 = .ok res) ↔ d.Typed cfg r resolveKey now :=
        acceptRaw_isOk_iff (by rw [hd]; exact hevent) hresolve hhandler
      simp only [Receiver.acceptA2aMessage, henvelope, hargs, Except.ok.injEq, forall_eq', hmetadata, true_and]
      rw [← hcall]
      constructor
      · rintro ⟨res, hres, -⟩
        exact ⟨res, hres⟩
      · rintro ⟨res, hres⟩
        refine ⟨res, hres, fun hno => ?_⟩
        -- a call that returns was given an object as its event
        have hobj := (hcall.mp ⟨res, hres⟩).event
        rw [hd] at hobj
        exact absurd ⟨event, metadata, henvelope, hobj, hmetadata⟩ hno

/-- An event for a key that nobody knows. -/
theorem acceptA2aMessage_returns_unknown_key :
    let message := Json.obj [("message", .obj [("parts", .arr [.obj [("data", .obj [("id", .str "evt_1")])]]),
      ("metadata", .obj [(extensionUri, .obj [("keyId", .str "k1")])])])]
    let resolveKey : Json → Except PyError PublicKey := fun _ => .error (.keyError "k1")
    let cfg : ReceiverConfig := { fromIsoformat := fun _ => none }
    (∃ res, (({} : Receiver).acceptA2aMessage cfg resolveKey message 0 none).1 = .ok res ∧
      (¬IsEnvelope message → res.ack = false ∧ res.retry = false)) ↔
    ∀ event metadata, deliveryEnvelope message = some (event, metadata) →
      metadata.IsObj ∧ ∀ d, RawDelivery.ofMessage event metadata = .ok d → d.Typed cfg {} resolveKey 0 := by
  intro message resolveKey cfg
  refine acceptA2aMessage_returns_iff cfg {} resolveKey message 0 none ?_ ?_ ?_
  · simp [message]
  · intro keyId e h
    cases h
    exact ⟨"k1", rfl⟩
  · simp

/-- Metadata that are a text pass for an envelope, and the call raises. -/
theorem acceptA2aMessage_text_metadata :
    let message := Json.obj [("message", .obj [("parts", .arr [.obj [("data", .obj [("id", .str "evt_1")])]]),
      ("metadata", .obj [(extensionUri, .str "k1")])])]
    let resolveKey : Json → Except PyError PublicKey := fun _ => .error (.keyError "k1")
    message.IsJson ∧ (∀ keyId e, resolveKey keyId = .error e → ∃ key, e = .keyError key) ∧
      ∀ (cfg : ReceiverConfig) (r : Receiver) (now : Time),
        (r.acceptA2aMessage cfg resolveKey message now none).1 = .error (.other "AttributeError") := by
  intro message resolveKey
  refine ⟨by simp [message], ?_, fun cfg r now => rfl⟩
  intro keyId e h
  cases h
  exact ⟨"k1", rfl⟩

end

end A2AEvents
