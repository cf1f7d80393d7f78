import A2AEvents.Native.Signing
import A2AEvents.Native.Ssrf
import A2AEvents.Native.Values

/-!
# AgentCards

`agentcard.py`: the card that a subscriber serves is any JSON value. It is checked against a policy,
and then read for the declaration of the extension and for the delivery endpoints.

`urlparse`, and `str` of values that are no texts, are parameters. The values come from a JSON
document, so that `str` does not raise.
-/

namespace A2AEvents

structure CardLib where
  urlparse : String → Except PyError UrlParts
  str : Json → String

/-- `str(value)`. -/
def CardLib.text (lib : CardLib) : Json → String
  | .str s => s
  | v => lib.str v

/-- `text.encode("ascii")`. -/
def encodeAscii (text : String) : Except PyError Bytes :=
  if text.toList.all fun c => c.toNat < 128 then .ok (encodeUtf8 text)
  else .error (.valueError "'ascii' codec can't encode characters: ordinal not in range(128)")

/-- The checks of a policy. A `SignatureVerifier` is the one for Ed25519 signatures, or a function. -/
inductive SignatureVerifier where
  | ed25519 (publicKey : PublicKey)
  | function (verifies : Json → Bool)

structure CardTrustPolicy where
  requireHttps : Bool := false
  requireSameOrigin : Bool := false
  allowedDomains : Option (List String) := none
  signatureVerifier : Option SignatureVerifier := none
  domainChallenge : Option (String → Bool) := none

variable (lib : CardLib)

/-! ## Signatures -/

/-- The card that is signed. -/
def unsignedCard : Json → Json
  | .obj members => .obj (members.filter fun m => m.1 ≠ "signatures")
  | v => v

/-- One signature: the search ends if it is valid. -/
def checkSignature (publicKey : PublicKey) (payloadB64 : String) (sig : Json) : Except PyError (Option Unit) := do
  let protectedHeader ← sig.getKey "protected"
  let signature ← sig.getKey "signature"
  if protectedHeader.truthy = false ∨ signature.truthy = false then .ok none
  else
    let signingInput ← encodeAscii (lib.text protectedHeader ++ "." ++ payloadB64)
    match signature with
    | .str text =>
      match b64urlDecode text with
      | .ok raw => .ok (if publicKey.verifyRaw raw signingInput then some () else none)
      | .error _ => .ok none
    | _ => .error (.typeError "can only concatenate str")

/-- `Ed25519CardSignatureVerifier`. -/
def verifyCardSignatures (publicKey : PublicKey) (card : Json) : Except PyError Bool := do
  let signatures ← card.getKey "signatures"
  let signatures := signatures.orElse (.arr [])
  if signatures.truthy = false then .ok false
  else
    let payload ← canonicalize (unsignedCard card)
    let found ← signatures.search (checkSignature lib publicKey (b64url payload))
    .ok found.isSome

def SignatureVerifier.call : SignatureVerifier → Json → Except PyError Bool
  | .ed25519 publicKey, card => verifyCardSignatures lib publicKey card
  | .function verifies, card => .ok (verifies card)

/-! ## Reading the card -/

/-- The URL of an interface that qualifies. -/
def jsonrpcUrl (iface : Json) : Except PyError (Option String) := do
  let url ← iface.getKey "url"
  let binding ← iface.getKeyD "protocolBinding" (.str "JSONRPC")
  .ok (if url.truthy && binding.text? = some "JSONRPC" then some (lib.text url) else none)

/-- `_a2a_endpoint_of`. -/
def a2aEndpointOf (card : Json) : Except PyError (Option String) := do
  let interfaces ← card.getKey "supportedInterfaces"
  match ← (interfaces.orElse (.arr [])).search (jsonrpcUrl lib) with
  | some url => .ok (some url)
  | none =>
    let url ← card.getKey "url"
    .ok (if url.truthy then some (lib.text url) else none)

/-- The parameters of an extension that is the one of a subscriber. -/
def subscriberParams (ext : Json) : Except PyError (Option Json) := do
  let uri ← ext.getKey "uri"
  if uri.text? = some extensionUri then
    let params ← ext.getKey "params"
    let params := params.orElse (.obj [])
    let role ← params.getKey "role"
    .ok (if role.text? = some "subscriber" then some params else none)
  else .ok none

/-- `_find_subscriber_extension`. -/
def findSubscriberExtension (card : Json) : Except PyError Json := do
  let capabilities ← card.getKey "capabilities"
  let extensions ← (capabilities.orElse (.obj [])).getKey "extensions"
  match ← (extensions.orElse (.arr [])).search subscriberParams with
  | some params => .ok params
  | none =>
    raiseA2A .subscriberCardInvalid "AgentCard does not declare the A2A Events subscriber extension."
      [("extension", .str extensionUri)]

/-- `DeliveryMode(value)`. -/
def DeliveryMode.ofValue : Json → Except PyError DeliveryMode
  | .str s =>
    if s = DeliveryMode.webhook.value then .ok .webhook
    else if s = DeliveryMode.a2aMessage.value then .ok .a2aMessage
    else .error (.valueError (repr s ++ " is not a valid DeliveryMode"))
  | _ => .error (.valueError "not a valid DeliveryMode")

/-- The delivery modes in the parameters. -/
def acceptedDeliveryModes (params : Json) : Except PyError (List DeliveryMode) := do
  let accepted ← params.getKeyD "acceptedDeliveryModes" (.arr [])
  let values ← accepted.iterate
  let modes ← sequence (values.map DeliveryMode.ofValue)
  .ok (if modes.isEmpty then [.a2aMessage, .webhook] else modes)

/-! ## Endpoints -/

/-- The checks of an endpoint. For a falsy value that is no text, `urlparse` gives parts that are
    empty byte strings and equal to no text; `parsed` is `none` then. -/
def checkOrigin (cardUrl : String) (endpoint : Json) (parsed : Option UrlParts) (policy : CardTrustPolicy) :
    Except PyError Unit := do
  if policy.requireHttps ∧ parsed.map UrlParts.scheme ≠ some "https" then
    raiseA2A .subscriberCardInvalid ("Delivery endpoint " ++ lib.text endpoint ++ " must use HTTPS.")
      [("endpoint", endpoint)]
  else if policy.requireSameOrigin then
    let card ← lib.urlparse cardUrl
    let port ← (parsed.map UrlParts.port).getD (.ok none)
    let cardPort ← card.port
    if parsed.map (fun p => (p.scheme, p.hostname, port)) ≠ some (card.scheme, card.hostname, cardPort) then
      raiseA2A .subscriberCardInvalid
        ("Delivery endpoint " ++ lib.text endpoint ++ " is not same-origin with the card.")
        [("endpoint", endpoint), ("cardUrl", .str cardUrl)]
    else .ok ()
  else .ok ()

/-- `_check_endpoint_trust`. -/
def checkEndpointTrust (cardUrl : String) (endpoint : Json) (policy : CardTrustPolicy) : Except PyError Unit :=
  match endpoint with
  | .null => .ok ()
  | .str url => do
    let parsed ← lib.urlparse url
    checkOrigin lib cardUrl endpoint (some parsed) policy
  | v =>
    if v.truthy then .error (.other "AttributeError") else checkOrigin lib cardUrl endpoint none policy

/-! ## Parsing -/

def CardTrustPolicy.allows (policy : CardTrustPolicy) (host : String) : Bool :=
  match policy.allowedDomains with
  | some domains => host ∈ domains
  | none => true

def CardTrustPolicy.verifies (policy : CardTrustPolicy) (card : Json) : Except PyError Bool :=
  match policy.signatureVerifier with
  | some verifier => verifier.call lib card
  | none => .ok true

def CardTrustPolicy.challenges (policy : CardTrustPolicy) (host : String) : Bool :=
  match policy.domainChallenge with
  | some challenge => challenge host
  | none => true

/-- `if not trusted: raise`. -/
def requireTrust (trusted : Bool) (message : String) (details : List (String × Json)) : Except PyError Unit :=
  if trusted then .ok () else raiseA2A .subscriberCardInvalid message details

/-- `parse_subscriber_card` up to the extension. -/
def checkTrust (cardUrl host : String) (card : Json) (policy : CardTrustPolicy) : Except PyError Unit := do
  requireTrust (policy.allows host) ("Subscriber domain " ++ host ++ " is not allowlisted.") [("host", .str host)]
  let verified ← policy.verifies lib card
  requireTrust verified "AgentCard signature is missing or invalid." [("cardUrl", .str cardUrl)]
  requireTrust (policy.challenges host) ("Domain ownership challenge failed for " ++ host ++ ".") [("host", .str host)]

/-- `parse_subscriber_card` from the extension on. A receive URL that is no text is falsy here, and to
    the publisher the same as none. -/
def readSubscriberCard (cardUrl : String) (card : Json) (policy : CardTrustPolicy) :
    Except PyError SubscriberCard := do
  let params ← findSubscriberExtension card
  let receiveUrl ← params.getKey "receiveUrl"
  let a2aEndpoint ← a2aEndpointOf lib card
  let modes ← acceptedDeliveryModes params
  checkEndpointTrust lib cardUrl receiveUrl policy
  checkEndpointTrust lib cardUrl ((a2aEndpoint.map Json.str).getD .null) policy
  pure { cardUrl, a2aEndpoint, receiveUrl := receiveUrl.text?, acceptedDeliveryModes := modes }

def parseSubscriberCard (cardUrl : String) (card : Json) (policy : CardTrustPolicy) :
    Except PyError SubscriberCard := do
  let parsed ← lib.urlparse cardUrl
  checkTrust lib cardUrl (parsed.hostname.getD "") card policy
  readSubscriberCard lib cardUrl card policy

/-- An `AgentCardResolver`; `fetch` gets the card, checks the status and decodes the body. -/
structure AgentCardResolver where
  fetch : String → Except PyError Json
  policy : CardTrustPolicy := {}

def AgentCardResolver.call (resolver : AgentCardResolver) (cardUrl : String) : Except PyError SubscriberCard :=
  match resolver.fetch cardUrl with
  | .ok card => parseSubscriberCard lib cardUrl card resolver.policy
  | .error (.a2a err) => .error (.a2a err)
  | .error _ =>
    raiseA2A .subscriberCardUnreachable ("Could not fetch subscriber card " ++ cardUrl ++ ".")
      [("cardUrl", .str cardUrl)]

end A2AEvents
