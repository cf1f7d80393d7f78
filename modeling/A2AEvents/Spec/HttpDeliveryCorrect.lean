import A2AEvents.Native.HttpDelivery
import A2AEvents.Spec.ReceiverCorrect

/-!
# What comes of a delivery over HTTP

The transport tells the publisher what a subscriber made of an event. Two things can go wrong on the
way back: the reply of an A2A endpoint is untrusted JSON that the transport looks into without
checking it, and the status of a webhook response stands for the flags of the handler's result.

## Key results

- `readReply_isOk_iff`: the payloads that the transport can read
- `sendA2aMessage_returns_iff`: when the transport returns a result
- `bindings_faithful_iff`: when both bindings report what the handler said
-/

namespace A2AEvents

/-! ## Replies of an A2A endpoint -/

/-- The payloads in which everything that is looked into is an object: the payload itself, and its
    error or, without one, its result, unless that counts as empty. -/
def Json.IsReply (payload : Json) : Prop :=
  ∃ members, payload = .obj members ∧
    match Json.member? "error" members with
    | some error => error.IsObj
    | none => ((Json.member? "result" members).getD .null).truthy = true →
        ((Json.member? "result" members).getD .null).IsObj

/-- An error is asked for its message. -/
private theorem readReply_error {members : List (String × Json)} {error : Json} (status : Int)
    (herror : Json.member? "error" members = some error) :
    (∃ result, readReply status (.obj members) = .ok result) ↔ error.IsObj := by
  rw [← Json.getKey_isOk_iff error "message"]
  simp only [readReply, Json.contains, Json.index, herror, Option.isSome_some, bind, Except.bind, if_true]
  cases error.getKey "message" with
  | error e => simp
  | ok v => simp [pure, Except.pure]

/-- A result that counts as empty is replaced, any other is asked for its flags. -/
private theorem readReply_result {members : List (String × Json)} (status : Int)
    (herror : Json.member? "error" members = none) :
    (∃ result, readReply status (.obj members) = .ok result) ↔
      (((Json.member? "result" members).getD .null).truthy = true →
        ((Json.member? "result" members).getD .null).IsObj) := by
  simp only [readReply, Json.contains, Json.getKey, herror, Option.isSome_none, bind, Except.bind, Bool.false_eq_true,
    if_false]
  generalize (Json.member? "result" members).getD .null = result
  cases htruthy : result.truthy with
  | false =>
    simp [Json.member?, pure, Except.pure]
  | true =>
    rw [if_pos rfl]
    cases result with
    | obj fields =>
      have hobj : (Json.obj fields).IsObj := ⟨fields, rfl⟩
      simp only [hobj, implies_true, iff_true]
      split
      · exact ⟨_, rfl⟩
      · exact ⟨_, rfl⟩
    | _ => simp [Json.IsObj]

theorem readReply_isOk_iff (status : Int) (payload : Json) :
    (∃ result, readReply status payload = .ok result) ↔ payload.IsReply := by
  cases payload with
  | obj members =>
    cases herror : Json.member? "error" members with
    | some error =>
      rw [readReply_error status herror]
      simp [Json.IsReply, herror]
    | none =>
      rw [readReply_result status herror]
      simp [Json.IsReply, herror]
  | arr xs =>
    simp only [readReply, Json.contains, Json.index, Json.getKey, Json.IsReply, bind, Except.bind]
    split <;> simp
  | str s =>
    simp only [readReply, Json.contains, Json.index, Json.getKey, Json.IsReply, bind, Except.bind]
    split <;> simp
  | _ => simp [readReply, Json.contains, Json.IsReply, bind, Except.bind]

/-- The transport returns a result exactly if the payload of a response with status 2xx, where there
    is one, can be read. -/
theorem sendA2aMessage_returns_iff (post : HttpRequest → Exchange) (endpoint id : String) (message : Json) :
    (∃ result, sendA2aMessage post endpoint id message = .ok result) ↔
      ∀ (status : Int) (payload : Json),
        post { url := endpoint, json := a2aEnvelope id message } = .answered { statusCode := status, json := some payload } →
        200 ≤ status → status < 300 → payload.IsReply := by
  simp only [sendA2aMessage]
  cases hpost : post { url := endpoint, json := a2aEnvelope id message } with
  | failed text => simp
  | answered resp =>
    obtain ⟨status, json⟩ := resp
    by_cases hstatus : 200 ≤ status ∧ status < 300
    · cases json with
      | none => simp [hstatus]
      | some payload =>
        simp only [hstatus, and_self, not_true, if_false]
        rw [readReply_isOk_iff]
        constructor
        · intro h status' payload' heq _ _
          cases heq
          exact h
        · intro h
          exact h status payload rfl hstatus.1 hstatus.2
    · simp only [hstatus, not_false_iff, if_true]
      constructor
      · intro _ status' payload' heq h1 h2
        cases heq
        exact absurd ⟨h1, h2⟩ hstatus
      · intro _
        exact ⟨_, rfl⟩

/-- A subscriber that answers with an empty array makes the transport raise. -/
theorem sendA2aMessage_empty_array :
    ¬∃ result, sendA2aMessage (fun _ => .answered { statusCode := 200, json := some (.arr []) })
      "https://sub.example/a2a/v1" "1f0c" (.obj []) = .ok result := by
  intro h
  obtain ⟨result, hresult⟩ := h
  cases hresult

/-! ## Both bindings -/

/-- The publisher is told what the handler said, as far as it acts on it. -/
def SendResult.Faithful (sent : SendResult) (res : DeliveryResult) : Prop :=
  sent.ack = res.ack ∧ (res.ack = false → sent.retry = res.retry)

/-- The status of a result, where it names one, says the same as its flags. -/
def DeliveryResult.StatusAgrees (res : DeliveryResult) : Prop :=
  ∀ status, res.statusCode = some status →
    if res.ack then 200 ≤ status ∧ status < 300
    else ¬(200 ≤ status ∧ status < 300) ∧ (res.retry = true ↔ status = 408 ∨ status = 429 ∨ 500 ≤ status)

/-- Statuses are read by ranges. -/
theorem resultFromStatus_faithful_iff (res : DeliveryResult) (status : Int) :
    (resultFromStatus status).Faithful res ↔
      if res.ack then 200 ≤ status ∧ status < 300
      else ¬(200 ≤ status ∧ status < 300) ∧ (res.retry = true ↔ status = 408 ∨ status = 429 ∨ 500 ≤ status) := by
  simp only [SendResult.Faithful, resultFromStatus]
  split
  · rename_i h
    cases hack : res.ack <;> simp [h]
  · rename_i h
    cases hack : res.ack with
    | true => simp [h]
    | false =>
      cases hretry : res.retry <;> simp [h]

/-- The status that stands for the flags is read as them. -/
theorem receiveStatus_faithful_iff (res : DeliveryResult) :
    (resultFromStatus (receiveStatus res)).Faithful res ↔ res.StatusAgrees := by
  rw [resultFromStatus_faithful_iff]
  simp only [receiveStatus, DeliveryResult.StatusAgrees]
  cases hstatus : res.statusCode with
  | some status => simp
  | none => cases hack : res.ack <;> cases hretry : res.retry <;> simp

/-- The app hands the message in the envelope to the receiver and replies with the flags. -/
theorem a2aRoute_envelope (acceptA2aMessage : Json → Except PyError DeliveryResult) (endpoint id : String)
    {message : Json} {res : DeliveryResult} (h : acceptA2aMessage message = .ok res) :
    a2aRoute acceptA2aMessage { url := endpoint, json := a2aEnvelope id message } =
      .ok { statusCode := 200
            json := some (.obj [("jsonrpc", .str "2.0"), ("id", .str id),
              ("result", .obj (("ack", .bool res.ack) :: if res.ack then [] else [("retry", .bool res.retry)]))]) } := by
  have hmethod : (a2aEnvelope id message).getKey "method" = .ok (.str a2aSendMessage) := rfl
  have hid : (a2aEnvelope id message).getKey "id" = .ok (.str id) := rfl
  have hparams : (a2aEnvelope id message).index "params" = .ok message := rfl
  have heq : (Json.str a2aSendMessage).pyEq (.str a2aSendMessage) = true := rfl
  simp only [a2aRoute, hmethod, hid, hparams, heq, h, bind, Except.bind]
  rfl

/-- Over the A2A binding the publisher is told the flags themselves. -/
theorem a2aBinding_faithful (endpoint id : String) (message : Json) (res : DeliveryResult) :
    ∃ sent, sendA2aMessage (fun request => .ofApp (a2aRoute (fun _ => .ok res) request)) endpoint id message = .ok sent ∧
      sent.Faithful res := by
  have hroute : a2aRoute (fun _ => .ok res) { url := endpoint, json := a2aEnvelope id message } = _ :=
    a2aRoute_envelope (fun _ => .ok res) endpoint id rfl
  simp only [sendA2aMessage, hroute, Exchange.ofApp]
  cases hack : res.ack with
  | true => exact ⟨{ ack := true, statusCode := some 200 }, rfl, hack.symm, fun h => by rw [hack] at h; cases h⟩
  | false =>
    exact ⟨{ ack := false, retry := res.retry }, rfl, hack.symm, fun _ => rfl⟩

/-- Over the webhook binding it is told the status. -/
theorem webhookBinding_faithful_iff (url : String) (headers : List (String × String)) (body : Json)
    (res : DeliveryResult) :
    (sendWebhook (fun request => .ofApp (receiveRoute (fun _ _ => .ok res) request)) url headers body).Faithful res ↔
      res.StatusAgrees := receiveStatus_faithful_iff res

/-- Both bindings tell the publisher what the in-memory transport hands over, which is the result
    itself, exactly if the status of the result says the same as its flags. -/
theorem bindings_faithful_iff (res : DeliveryResult) :
    (∀ (url endpoint id : String) (headers : List (String × String)) (body message : Json),
      (sendWebhook (fun request => .ofApp (receiveRoute (fun _ _ => .ok res) request)) url headers body).Faithful res ∧
      ∃ sent, sendA2aMessage (fun request => .ofApp (a2aRoute (fun _ => .ok res) request)) endpoint id message = .ok sent ∧
        sent.Faithful res) ↔
    res.StatusAgrees := by
  constructor
  · intro h
    exact (webhookBinding_faithful_iff "" [] .null res).mp (h "" "" "" [] .null .null).1
  · intro h url endpoint id headers body message
    exact ⟨(webhookBinding_faithful_iff url headers body res).mpr h, a2aBinding_faithful endpoint id message res⟩

/-- A handler that asks for a retry with status 400 gets one over A2A only. -/
theorem retry_with_status_400 :
    ¬(sendWebhook (fun request => .ofApp (receiveRoute
        (fun _ _ => .ok { ack := false, retry := true, statusCode := some 400 }) request))
      "https://sub.example/receive" [] (.obj [])).Faithful { ack := false, retry := true, statusCode := some 400 } := by
  rw [webhookBinding_faithful_iff]
  intro h
  have hagrees := h 400 rfl
  simp at hagrees

/-! ## The receiver's own answers -/

/-- The receiver refuses with statuses that are not retried. -/
theorem nack_statusAgrees {status : Int} {reason : String} (h : 400 ≤ status ∧ status < 408) :
    (nack status reason).StatusAgrees := by
  intro status' hstatus'
  cases hstatus'
  simp only [nack, Bool.false_eq_true, if_false, false_iff]
  omega

theorem ack_statusAgrees {status : Int} (h : 200 ≤ status ∧ status < 300) :
    DeliveryResult.StatusAgrees { ack := true, statusCode := some status } := by
  intro status' hstatus'
  cases hstatus'
  simpa using h

theorem handleEvent_statusAgrees {r : Receiver} {event eventId : Json}
    {onEvent : Option (Except PyError (Option DeliveryResult))} {res : DeliveryResult}
    (h : (r.handleEvent event eventId onEvent).1 = .ok res) :
    onEvent = some (.ok (some res)) ∨ res.StatusAgrees := by
  simp only [Receiver.handleEvent] at h
  split at h
  · cases h
  · cases h
    exact .inl rfl
  all_goals
    cases h
    exact .inr (ack_statusAgrees (by decide))

/-- What comes after the key is refused, known, or up to the handler. -/
theorem finishAccept_statusAgrees {cfg : ReceiverConfig} {r : Receiver} {d : Delivery} {key : Except PyError PublicKey}
    {now : Time} {onEvent : Option (Except PyError (Option DeliveryResult))} {res : DeliveryResult}
    (h : (r.finishAccept cfg d key now onEvent).1 = .ok res) : onEvent = some (.ok (some res)) ∨ res.StatusAgrees := by
  simp only [Receiver.finishAccept] at h
  split at h
  · cases h
    exact .inr (nack_statusAgrees (by decide))
  · cases h
  split at h
  · cases h
  · cases h
    exact .inr (nack_statusAgrees (by decide))
  split at h
  · cases h
    exact .inr (nack_statusAgrees (by decide))
  split at h
  · cases h
  split at h
  · cases h
    exact .inr (nack_statusAgrees (by decide))
  split at h
  · cases h
  split at h
  · cases h
    exact .inr (ack_statusAgrees (by decide))
  · exact handleEvent_statusAgrees h

/-- An answer whose status says something else than its flags is the handler's. -/
theorem accept_statusAgrees {cfg : ReceiverConfig} {r : Receiver} {resolveKey : String → Except PyError PublicKey}
    {d : Delivery} {now : Time} {onEvent : Option (Except PyError (Option DeliveryResult))} {res : DeliveryResult}
    (h : (r.accept cfg resolveKey d now onEvent).1 = .ok res) :
    onEvent = some (.ok (some res)) ∨ res.StatusAgrees := by
  simp only [Receiver.accept] at h
  split at h
  · cases h
  · rename_i result hbegin
    cases h
    rw [result_of_beginAccept hbegin]
    exact .inr (nack_statusAgrees (by decide))
  · exact finishAccept_statusAgrees h

end A2AEvents
