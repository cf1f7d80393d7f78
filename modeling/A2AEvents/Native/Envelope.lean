import A2AEvents.Native.Receiver

/-!
# Untrusted deliveries

`accept_a2a_message` of `receiver.py`, for messages that nobody has checked. The values in the
metadata of a message are handed to `accept` as they are, and each of its steps does with them what
it would do with a text. On texts it is the `accept` of `Receiver`.
-/

namespace A2AEvents

/-- The arguments of a call of `accept`, of any type. -/
structure RawDelivery where
  event : Json
  keyId : Json
  timestamp : Json
  signature : Json
  deliveryToken : Json

/-- `verify`. Texts have `startswith` and `encode`, other values have not. -/
def verifyRaw (publicKey : PublicKey) (timestamp event signature : Json) : Except PyError Bool :=
  match signature with
  | .str signature =>
    match b64urlDecode (stripPrefix signaturePrefix signature), timestamp with
    | .error _, _ => .ok false
    | .ok _, .str timestamp => verify publicKey timestamp event signature
    | .ok _, _ => .error (.other "AttributeError")
  | _ => .error (.other "AttributeError")

/-- `_within_skew`; `fromisoformat` takes texts only. -/
def ReceiverConfig.withinSkewRaw (cfg : ReceiverConfig) (now : Time) : Json → Except PyError Bool
  | .str timestamp => .ok (cfg.withinSkew now timestamp)
  | _ => if cfg.maxSkew.isNone then .ok true else .error (.typeError "fromisoformat: argument must be str")

/-- `accept` from the id of the event on. -/
def Receiver.acceptVerified (r : Receiver) (event : Json) (onEvent : Option (Except PyError (Option DeliveryResult))) :
    Except PyError DeliveryResult × Receiver :=
  match event.getKey "id" with
  | .error e => (.error e, r)
  | .ok eventId =>
    if eventId.truthy = false then (.ok (nack 400 "event has no id"), r)
    else
      match eventId.hash with
      | .error e => (.error e, r)
      | .ok () =>
        if r.seen.any (fun other => eventId.pyEq other) then (.ok { ack := true, statusCode := some 200 }, r)
        else r.handleEvent event eventId onEvent

/-- `accept` from the key on. -/
def Receiver.acceptKeyed (cfg : ReceiverConfig) (r : Receiver) (publicKey : PublicKey) (d : RawDelivery) (now : Time)
    (onEvent : Option (Except PyError (Option DeliveryResult))) : Except PyError DeliveryResult × Receiver :=
  match verifyRaw publicKey d.timestamp d.event d.signature with
  | .error e => (.error e, r)
  | .ok false => (.ok (nack 401 "bad signature"), r)
  | .ok true =>
    match cfg.withinSkewRaw now d.timestamp with
    | .error e => (.error e, r)
    | .ok false => (.ok (nack 403 "timestamp out of skew"), r)
    | .ok true => r.acceptVerified d.event onEvent

/-- `accept`. Registered tokens are texts, and equal to texts only. -/
def Receiver.acceptRaw (cfg : ReceiverConfig) (r : Receiver) (resolveKey : Json → Except PyError PublicKey)
    (d : RawDelivery) (now : Time) (onEvent : Option (Except PyError (Option DeliveryResult))) :
    Except PyError DeliveryResult × Receiver :=
  match d.event.getKey "a2asubscription" with
  | .error e => (.error e, r)
  | .ok subscriptionId =>
    match r.deliveryTokenOk subscriptionId d.deliveryToken.text? with
    | .error e => (.error e, r)
    | .ok false => (.ok (nack 401 "bad delivery token"), r)
    | .ok true =>
      match resolveKey d.keyId with
      | .error (.keyError _) => (.ok (nack 401 "unknown signing key"), r)
      | .error e => (.error e, r)
      | .ok publicKey => r.acceptKeyed cfg publicKey d now onEvent

/-- The arguments in a message. -/
def RawDelivery.ofMessage (event metadata : Json) : Except PyError RawDelivery := do
  let keyId ← metadata.getKeyD "keyId" (.str "")
  let timestamp ← metadata.getKeyD "timestamp" (.str "")
  let signature ← metadata.getKeyD "signature" (.str "")
  let deliveryToken ← metadata.getKey "deliveryToken"
  pure { event, keyId, timestamp, signature, deliveryToken }

/-- `accept_a2a_message`. -/
def Receiver.acceptA2aMessage (cfg : ReceiverConfig) (r : Receiver) (resolveKey : Json → Except PyError PublicKey)
    (message : Json) (now : Time) (onEvent : Option (Except PyError (Option DeliveryResult))) :
    Except PyError DeliveryResult × Receiver :=
  match deliveryEnvelope message with
  | none => (.ok (nack 400 "malformed envelope"), r)
  | some (event, metadata) =>
    match RawDelivery.ofMessage event metadata with
    | .error e => (.error e, r)
    | .ok d => r.acceptRaw cfg resolveKey d now onEvent

end A2AEvents
