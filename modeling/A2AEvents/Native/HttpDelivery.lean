import A2AEvents.Native.Receiver

/-!
# Delivery over HTTP

`HttpxTransport` of `runtime/http_delivery.py`, and the routes of the subscriber app in `server.py`
that answer it. What `client.post` does with a request is a parameter of the transport: it fails with
`httpx.RequestError`, or there is a response, whose body `resp.json()` parses or refuses with
`ValueError`. An app that raises answers with status 500.

The handshake header of the extension takes no part in the outcome of a delivery.
-/

namespace A2AEvents

/-! ## Untrusted values -/

/-- `key in value`. -/
def Json.contains (key : String) : Json → Except PyError Bool
  | .obj members => .ok (Json.member? key members).isSome
  | .arr xs => .ok (xs.any fun x => x.pyEq (.str key))
  | .str s => .ok (isSubstring key.toList s.toList)
  | _ => .error (.typeError "argument is not iterable")

/-- `value[key]`. -/
def Json.index (key : String) : Json → Except PyError Json
  | .obj members =>
    match Json.member? key members with
    | some v => .ok v
    | none => .error (.keyError key)
  | .arr _ => .error (.typeError "list indices must be integers or slices, not str")
  | .str _ => .error (.typeError "string indices must be integers, not str")
  | _ => .error (.typeError "object is not subscriptable")

/-! ## Requests and responses -/

/-- A POST with a JSON body. -/
structure HttpRequest where
  url : String
  headers : List (String × String) := []
  json : Json

/-- A response; `json` is missing if the body is not JSON. -/
structure HttpResponse where
  statusCode : Int
  json : Option Json := none

/-- What becomes of a request; a failure comes with the text of the `httpx.RequestError`. -/
inductive Exchange where
  | failed (message : String)
  | answered (resp : HttpResponse)

/-- The answer of an app to a request. -/
def Exchange.ofApp : Except PyError HttpResponse → Exchange
  | .ok resp => .answered resp
  | .error _ => .answered { statusCode := 500 }

/-! ## The transport -/

/-- The `DeliveryResult` of a delivery over HTTP. The reason is what the subscriber sent. -/
structure SendResult where
  ack : Bool
  retry : Bool := true
  statusCode : Option Int := none
  reason : Json := .null

def resultFromStatus (status : Int) (reason : Json := .null) : SendResult :=
  if 200 ≤ status ∧ status < 300 then { ack := true, statusCode := some status }
  else
    { ack := false, retry := status = 408 ∨ status = 429 ∨ 500 ≤ status, statusCode := some status, reason }

/-- Deliver to a receive URL. The headers of the caller override the content type. -/
def sendWebhook (post : HttpRequest → Exchange) (url : String) (headers : List (String × String)) (body : Json) :
    SendResult :=
  let headers := (Dict.ofList (("Content-Type", "application/cloudevents+json") :: headers)).entries
  match post { url, headers, json := body } with
  | .failed message => { ack := false, retry := true, reason := .str message }
  | .answered resp => resultFromStatus resp.statusCode

def a2aSendMessage : String := "SendMessage"

/-- The JSON-RPC call around a message; `id` is a fresh uuid. -/
def a2aEnvelope (id : String) (message : Json) : Json :=
  .obj [("jsonrpc", .str "2.0"), ("id", .str id), ("method", .str a2aSendMessage), ("params", message)]

/-- What the payload of a response with status 2xx says about the delivery. -/
def readReply (status : Int) (payload : Json) : Except PyError SendResult := do
  if ← payload.contains "error" then
    let reason ← (← payload.index "error").getKey "message"
    return { ack := false, retry := true, reason }
  let result ← payload.getKey "result"
  let result := if result.truthy then result else .obj []
  match ← result.getKey "ack" with
  | .bool false => return { ack := false, retry := (← result.getKey "retry").truthy }
  | _ => return { ack := true, statusCode := some status }

/-- Deliver to an A2A endpoint. -/
def sendA2aMessage (post : HttpRequest → Exchange) (endpoint id : String) (message : Json) :
    Except PyError SendResult :=
  match post { url := endpoint, json := a2aEnvelope id message } with
  | .failed message => .ok { ack := false, retry := true, reason := .str message }
  | .answered resp =>
    if ¬(200 ≤ resp.statusCode ∧ resp.statusCode < 300) then .ok (resultFromStatus resp.statusCode)
    else
      match resp.json with
      | none => .ok { ack := false, retry := true, reason := .str "non-JSON response from A2A endpoint" }
      | some payload => readReply resp.statusCode payload

/-! ## The subscriber app -/

/-- `_receive_status`: a status that the receiver names goes out as it is. -/
def receiveStatus (res : DeliveryResult) : Int :=
  match res.statusCode with
  | some status => status
  | none => if res.ack then 204 else if res.retry then 503 else 422

/-- `POST /a2a-events/receive`; `acceptWebhook` is that of the receiver. -/
def receiveRoute (acceptWebhook : List (String × String) → Json → Except PyError DeliveryResult)
    (request : HttpRequest) : Except PyError HttpResponse := do
  let res ← acceptWebhook request.headers request.json
  return { statusCode := receiveStatus res }

/-- `POST /a2a/v1`; `acceptA2aMessage` is that of the receiver. -/
def a2aRoute (acceptA2aMessage : Json → Except PyError DeliveryResult) (request : HttpRequest) :
    Except PyError HttpResponse := do
  let body := request.json
  let method ← body.getKey "method"
  let id ← body.getKey "id"
  if method.pyEq (.str a2aSendMessage) = false then
    let error := Json.obj [("code", .int (-32601)), ("message", .str "Unknown method.")]
    return { statusCode := 200, json := some (.obj [("jsonrpc", .str "2.0"), ("id", id), ("error", error)]) }
  let res ← acceptA2aMessage (← body.index "params")
  let result := Json.obj (("ack", .bool res.ack) :: if res.ack then [] else [("retry", .bool res.retry)])
  return { statusCode := 200, json := some (.obj [("jsonrpc", .str "2.0"), ("id", id), ("result", result)]) }

end A2AEvents
