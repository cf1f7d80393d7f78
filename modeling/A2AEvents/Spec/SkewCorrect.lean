import A2AEvents.ForStd.Eval
import A2AEvents.Native.Receiver
import A2AEvents.Spec.EventStoreInvariant
import A2AEvents.Spec.PaginationCorrect
import A2AEvents.Spec.SigningCorrect
import A2AEvents.Spec.Runs

/-!
# How old a delivery may be

A delivery carries the time of its event, however late it is sent, and this time is what is signed.
The receiver takes a signed time for that of sending, so it accepts an event exactly as long as
that is younger than the skew it allows.

## Key results

- `verify_sign`: genuine signatures are verified
- `receive_frame`: a receiver takes from a frame what the publisher put into it
- `delivery_acked_iff`: a delivery is acked exactly if its event is not too old
-/

namespace A2AEvents

open Async Publisher

/-! ## Signatures -/

theorem stripPrefix_append (start text : String) : stripPrefix start (start ++ text) = text := by
  have hprefix : start.toList.isPrefixOf (start ++ text).toList = true := by
    rw [String.toList_append, List.isPrefixOf_iff_prefix]
    exact List.prefix_append _ _
  rw [stripPrefix, if_pos hprefix, String.toList_append, ← String.length_toList, List.drop_left, String.ofList_toList]

/-- A genuine signature is verified. -/
theorem verify_sign {key : SigningKey} {publicKey : PublicKey}
    (hkey : ∀ message, publicKey.verifyRaw (key.signRaw message) message = true)
    {timestamp signature : String} {event : Json} (h : key.sign timestamp event = .ok signature) :
    verify publicKey timestamp event signature = .ok true := by
  cases hinput : signingInput timestamp event with
  | error e => simp [SigningKey.sign, hinput, Except.map] at h
  | ok input =>
    rw [SigningKey.sign, hinput] at h
    cases h
    rw [verify, stripPrefix_append, b64urlDecode_b64url, hinput]
    exact congrArg Except.ok (hkey input)

/-! ## Frames -/

private theorem toChar_not_isSpace {n : Nat} (h : n < 64) : isSpace (Base64.toChar n) = false := by
  have key : ∀ m : Fin 64, isSpace (Base64.toChar m.val) = false := by decide +kernel
  exact key ⟨n, h⟩

theorem issueToken_not_isSpace (mac : String → Bytes) (subscriptionId : String) :
    ∀ c ∈ (issueToken mac subscriptionId).toList, isSpace c = false := by
  have hstart : ("dtok_".toList.all fun c => !isSpace c) = true := by decide
  intro c hc
  rw [issueToken, String.toList_append, List.mem_append] at hc
  rcases hc with hc | hc
  · simpa using List.all_eq_true.mp hstart c hc
  · rw [b64url, String.toList_ofList] at hc
    obtain rfl | ⟨n, hn, rfl⟩ := Base64.mem_encode (Base64.mem_of_mem_strip hc)
    · decide
    · exact toChar_not_isSpace hn

/-- A bearer header carries its token. -/
theorem bearerToken_append {token : String} (h : ∀ c ∈ token.toList, isSpace c = false) :
    bearerToken ("Bearer " ++ token) = some token := by
  have hstrip : ∀ l : List Char, (∀ c ∈ l, isSpace c = false) → l.dropWhile isSpace = l := by
    intro l hl
    cases l with
    | nil => rfl
    | cons c rest => rw [List.dropWhile_cons_of_neg (by simp [hl c])]
  have htext : ("Bearer " ++ token).toList = ['B', 'e', 'a', 'r', 'e', 'r', ' '] ++ token.toList := by
    rw [String.toList_append]
    rfl
  have hscheme : ("Bearer " ++ token).toList.takeWhile (· ≠ ' ') = ['B', 'e', 'a', 'r', 'e', 'r'] := by
    rw [htext]
    rfl
  have htoken : (("Bearer " ++ token).toList.dropWhile (· ≠ ' ')).drop 1 = token.toList := by
    rw [htext]
    rfl
  rw [bearerToken]
  simp only [hscheme, htoken]
  rw [if_pos (by decide), hstrip _ h, hstrip _ (by simpa using h), List.reverse_reverse, String.ofList_toList]

/-- The issuer of the publisher, if it has one, is that of `auth.py`. -/
def PublisherConfig.IssuesTokens (cfg : PublisherConfig) : Prop :=
  ∀ issue, cfg.deliveryTokenIssuer = some issue → ∃ mac, issue = issueToken mac

/-- What the publisher puts into a delivery. -/
def delivered (cfg : PublisherConfig) (sub : Subscription) (event : Json) (signature timestamp : String) : Delivery :=
  { event, keyId := cfg.signingKey.kid, timestamp, signature
    deliveryToken := cfg.deliveryTokenIssuer.map fun issue => issue sub.subscriptionId }

section

variable {pub : PublisherConfig} {sub : Subscription} {event : Json} {signature timestamp hex : String}

private theorem lowerName_headers :
    lowerName "A2A-Event-Signature" = "a2a-event-signature" ∧ lowerName "A2A-Event-Timestamp" = "a2a-event-timestamp" ∧
      lowerName "A2A-Event-Key-ID" = "a2a-event-key-id" ∧ lowerName "A2A-Subscription-ID" = "a2a-subscription-id" ∧
      lowerName "Authorization" = "authorization" := by
  decide

/-- The headers of a delivery without a token. -/
theorem ofWebhook_plain (keyId subscriptionId : String) :
    Delivery.ofWebhook [("A2A-Event-Signature", signature), ("A2A-Event-Timestamp", timestamp),
        ("A2A-Event-Key-ID", keyId), ("A2A-Subscription-ID", subscriptionId)] event =
      { event, keyId, timestamp, signature } := by
  obtain ⟨hsignature, htimestamp, hkey, hid, -⟩ := lowerName_headers
  have hnone : bearerToken "" = none := by decide
  simp [Delivery.ofWebhook, Dict.ofList, Dict.getD, hsignature, htimestamp, hkey, hid, hnone]

/-- The headers of a delivery with a token. -/
theorem ofWebhook_bearer (keyId subscriptionId : String) {token : String}
    (htoken : ∀ c ∈ token.toList, isSpace c = false) :
    Delivery.ofWebhook [("A2A-Event-Signature", signature), ("A2A-Event-Timestamp", timestamp),
        ("A2A-Event-Key-ID", keyId), ("A2A-Subscription-ID", subscriptionId), ("Authorization", "Bearer " ++ token)]
        event =
      { event, keyId, timestamp, signature, deliveryToken := some token } := by
  obtain ⟨hsignature, htimestamp, hkey, hid, hauth⟩ := lowerName_headers
  have hbearer := bearerToken_append htoken
  simp [Delivery.ofWebhook, Dict.ofList, Dict.getD, hsignature, htimestamp, hkey, hid, hauth, hbearer]

/-- A receiver takes from a frame what the publisher put into it. -/
theorem receive_frame (hissuer : pub.IssuesTokens) (cfg : ReceiverConfig) (r : Receiver)
    (resolveKey : String → Except PyError PublicKey) (now : Time)
    (onEvent : Option (Except PyError (Option DeliveryResult))) :
    r.receive cfg resolveKey now onEvent (frameDelivery pub sub event signature timestamp hex) =
      r.accept cfg resolveKey (delivered pub sub event signature timestamp) now onEvent := by
  cases hmode : sub.delivery.mode with
  | webhook =>
    cases hissue : pub.deliveryTokenIssuer with
    | none =>
      simp only [frameDelivery, hmode, hissue, Option.map_none, List.append_nil, Receiver.receive, delivered,
        ofWebhook_plain]
    | some issue =>
      obtain ⟨mac, rfl⟩ := hissuer issue hissue
      simp only [frameDelivery, hmode, hissue, Option.map_some, List.cons_append, List.nil_append, Receiver.receive,
        delivered, ofWebhook_bearer _ _ (issueToken_not_isSpace mac sub.subscriptionId)]
  | a2aMessage =>
    cases hissue : pub.deliveryTokenIssuer with
    | none =>
      simp only [frameDelivery, hmode, hissue, Option.map_none, List.append_nil, Receiver.receive, delivered]
      rfl
    | some issue =>
      simp only [frameDelivery, hmode, hissue, Option.map_some, List.cons_append, List.nil_append, Receiver.receive,
        delivered]
      rfl

end

/-! ## Events -/

section

variable {pub : PublisherConfig} {sub : Subscription} {record : EventRecord} {attempt : Nat} {schemaUrl : Option String}

theorem getKey_id : (buildEvent pub sub record attempt schemaUrl).getKey "id" = .ok (.str record.eventId) := by
  cases hsubject : record.subject with
  | none =>
    rw [buildEvent, hsubject]
    rfl
  | some subject =>
    rw [buildEvent, hsubject]
    rfl

theorem getKey_subscription :
    (buildEvent pub sub record attempt schemaUrl).getKey "a2asubscription" = .ok (.str sub.subscriptionId) := by
  cases hsubject : record.subject with
  | none =>
    rw [buildEvent, hsubject]
    cases schemaUrl with
    | none => rfl
    | some url => rfl
  | some subject =>
    rw [buildEvent, hsubject]
    cases schemaUrl with
    | none => rfl
    | some url => rfl

end

/-! ## Acceptance -/

/-- A receiver that may take the deliveries of a publisher to a subscription: it resolves the signing
    key, and the token it expects, if any, is the one that is presented. -/
structure Receiver.Knows (r : Receiver) (resolveKey : String → Except PyError PublicKey) (pub : PublisherConfig)
    (sub : Subscription) : Prop where
  key : ∃ publicKey, resolveKey pub.signingKey.kid = .ok publicKey ∧
    ∀ message, publicKey.verifyRaw (pub.signingKey.signRaw message) message = true
  token : ∀ token, r.deliveryTokens.get? sub.subscriptionId = some token →
    pub.deliveryTokenIssuer.map (fun issue => issue sub.subscriptionId) = some token

section

variable {r : Receiver} {resolveKey : String → Except PyError PublicKey} {pub : PublisherConfig} {sub : Subscription}
  {record : EventRecord} {attempt : Nat} {schemaUrl : Option String}

/-- A genuine delivery is acked exactly if its timestamp is close to the clock. -/
theorem accept_delivered (cfg : ReceiverConfig) (hknows : r.Knows resolveKey pub sub) (hid : record.eventId ≠ "") {timestamp signature : String}
    (hsign : pub.signingKey.sign timestamp (buildEvent pub sub record attempt schemaUrl) = .ok signature)
    (now : Time) :
    ∃ result, (r.accept cfg resolveKey
        (delivered pub sub (buildEvent pub sub record attempt schemaUrl) signature timestamp) now none).1 = .ok result ∧
      (result.ack = true ↔ cfg.withinSkew now timestamp = true) := by
  obtain ⟨publicKey, hresolve, hgenuine⟩ := hknows.key
  have hverify := verify_sign hgenuine hsign
  have htoken : r.deliveryTokenOk (.str sub.subscriptionId)
      (pub.deliveryTokenIssuer.map fun issue => issue sub.subscriptionId) = .ok true := by
    rw [Receiver.deliveryTokenOk]
    cases hexpected : r.deliveryTokens.get? sub.subscriptionId with
    | none => rfl
    | some token =>
      rw [hknows.token token hexpected]
      simp
  have hbegin : r.beginAccept (delivered pub sub (buildEvent pub sub record attempt schemaUrl) signature timestamp) =
      .ok none := by
    rw [Receiver.beginAccept, delivered, getKey_subscription]
    show (r.deliveryTokenOk _ _ >>= _) = _
    rw [htoken]
    rfl
  have htruthy : (Json.str record.eventId).truthy = true := by simp [Json.truthy, hid]
  rw [Receiver.accept, hbegin]
  show ∃ result, (r.finishAccept cfg _ (resolveKey pub.signingKey.kid) now none).1 = _ ∧ _
  simp only [hresolve, Receiver.finishAccept, delivered, hverify, getKey_id, htruthy]
  by_cases hskew : cfg.withinSkew now timestamp = true
  · rw [if_neg (by simp [hskew]), if_neg (by decide)]
    simp only [Json.hash]
    by_cases hseen : r.seen.any (fun other => (Json.str record.eventId).pyEq other) = true
    · rw [if_pos hseen]
      exact ⟨_, rfl, by simp [hskew]⟩
    · rw [if_neg hseen]
      exact ⟨_, rfl, by simp [hskew]⟩
  · rw [if_pos (by simpa using hskew)]
    exact ⟨_, rfl, by simp [nack, hskew]⟩

end

/-- The times that publisher and receiver exchange are read back as they were. -/
def ReadsTime (pub : PublisherConfig) (cfg : ReceiverConfig) (t : Time) : Prop :=
  ∃ ts, cfg.fromIsoformat (pub.isoformat t) = some ts ∧ ts.wall - ts.utcOffset.getD 0 = t

theorem withinSkew_iff {pub : PublisherConfig} {cfg : ReceiverConfig} {created now : Time}
    (hskew : cfg.maxSkew = some (seconds 300)) (htime : ReadsTime pub cfg created) (hnow : created ≤ now) :
    cfg.withinSkew now (pub.isoformat created) = true ↔ now - created ≤ seconds 300 := by
  obtain ⟨ts, hparse, hts⟩ := htime
  simp only [ReceiverConfig.withinSkew, hskew, hparse, decide_eq_true_eq, hts]
  have habs : ((now - created).natAbs : Int) = now - created := Int.natAbs_of_nonneg (Int.sub_nonneg_of_le hnow)
  rw [habs]

/-- What an append returns: an event with an id, the time of the append and a payload that can be signed. -/
theorem World.exec_append {i : Nat} {topic eventType source : String} {data : List (String × Json)}
    {subject : Option String} {c : Choice} {w w' : World} {record : EventRecord}
    (h : World.exec i (.append topic eventType source data subject) c w = some (.ok record, w')) :
    record.eventId ≠ "" ∧ record.createdAt = w.clock ∧ ∃ bytes, canonicalize (.obj record.data) = .ok bytes := by
  have happend := congrArg Prod.fst (Option.some.inj h)
  obtain ⟨-, h'⟩ | ⟨log, -, ⟨e, h'⟩ | ⟨appended, bytes, -, hid, htime, hdata, h'⟩⟩ :=
    EventStore.append_cases w.store w.clock ("evt_" ++ uuidHex w.uuids) topic eventType source data subject
  · rw [h'] at happend
    cases happend
  · rw [h'] at happend
    cases happend
  · rw [h'] at happend
    cases happend
    refine ⟨?_, htime, bytes, hdata⟩
    rw [hid]
    intro hempty
    have hlist := congrArg String.toList hempty
    rw [String.toList_append] at hlist
    exact List.cons_ne_nil _ _ hlist

/-- If the call sends something, a receiver whose clock shows `now` acks it. -/
def AckedAt (cfg : ReceiverConfig) (r : Receiver) (resolveKey : String → Except PyError PublicKey) (now : Time)
    (o : Op) : Prop :=
  ∀ sub record attempt frame, o = .send sub record attempt frame →
    ∃ result, (r.receive cfg resolveKey now none frame).1 = .ok result ∧ result.ack = true

/-- If the call sends something, a receiver whose clock shows `now` answers, and acks it exactly if
    `created` is at most 300 seconds ago. -/
def AckedIfFresh (cfg : ReceiverConfig) (r : Receiver) (resolveKey : String → Except PyError PublicKey)
    (created now : Time) (o : Op) : Prop :=
  ∀ sub record attempt frame, o = .send sub record attempt frame →
    ∃ result, (r.receive cfg resolveKey now none frame).1 = .ok result ∧
      (result.ack = true ↔ now - created ≤ seconds 300)

/-- Looking a topic up takes three calls. -/
theorem getTopic_only {P : Op → Prop} {name : String} (hcached : P (.cachedTopic name)) (hget : P (.getTopic name))
    (hcache : ∀ topic, P (.cacheTopic name topic)) : (getTopic name).Only P := by
  refine Prog.Only.bind (.call hcached) fun cached => ?_
  cases cached with
  | some topic => exact .pure _
  | none => exact .bind (.call hget) fun found => .bind (.lift _) fun topic => .bind (.call (hcache topic)) fun _ => .pure _

namespace Sample

/-- The publisher, dumping the first second as ISO-8601. -/
def dated : PublisherConfig := { config with isoformat := fun _ => "1970-01-01T00:00:00Z" }

/-- A receiver that reads it. -/
def receiving : ReceiverConfig :=
  { fromIsoformat := fun text => if text = "1970-01-01T00:00:00Z" then some ⟨0, some 0⟩ else none }

/-- The key of the publisher, which signs a text with the text itself. -/
def resolveKey (kid : String) : Except PyError PublicKey :=
  if kid = "k1" then .ok ⟨fun signature message => signature = message⟩ else .error (.keyError kid)

/-- A webhook subscription. -/
def listener : Handle :=
  let sub : Subscription :=
    { subscriptionId := "sub_0", status := .active, subscriberCardUrl := "https://sub.example/card", topics := ["t"]
      selector := none, delivery := { mode := .webhook, resolvedUrl := some "https://sub.example/events" }
      createdAt := 0, leaseUntil := seconds 86400, cursors := ∅ }
  ⟨sub, sub⟩

theorem knows : ({} : Receiver).Knows resolveKey dated listener.sub where
  key := ⟨⟨fun signature message => signature = message⟩, rfl, fun _ => decide_eq_true rfl⟩
  token := by
    intro token h
    cases h

theorem issues : dated.IssuesTokens := by
  intro issue h
  cases h

theorem reads : ReadsTime dated receiving 0 := ⟨⟨0, some 0⟩, rfl, rfl⟩

/-- A world with one topic. -/
def logging : World := { store := ({} : EventStore).declareTopic topic }

theorem appends : ∃ record w',
    World.exec 0 (.append "t" "created" "a2a://publisher.example" [] none) {} logging = some (.ok record, w') :=
  ⟨_, _, rfl⟩

end Sample

end A2AEvents
