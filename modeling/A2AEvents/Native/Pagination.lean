import A2AEvents.ForStd.JsonText
import A2AEvents.Native.Publisher

/-!
# Page tokens

`pagination.py` and the listings of `publisher.py` that use it. A token is the base64url form of
`{"after": id}`, where the id is that of the last item of a page.

Token bytes are taken to be UTF-8, as `json.loads` finds it with all tokens but hand-made ones.
-/

namespace A2AEvents

/-- Encode the token of the page after an item. -/
def encodePageToken (after : String) : String :=
  b64url (encodeUtf8 (String.ofList (JsonText.dumps "after" after)))

/-- A text of the language: code points, among which there may be surrogates. -/
structure PyText where
  points : List Nat
  bound : ∀ n ∈ points, n < 0x110000

/-- `encode_page_token` of any text; `encodePageToken` is that of Unicode texts. -/
def encodePageTokenPoints (after : PyText) : String :=
  b64url (encodeUtf8 (String.ofList (JsonText.dumpsMember (JsonText.codePoints "after") after.points)))

def invalidPageToken {α : Type} (token : String) : Except PyError α :=
  raiseA2A .invalidCursor "Invalid page token." [("pageToken", .str token)]

/-- The id in a token, as code points; no token means the first page. -/
def decodePageToken (token : Option String) : Except PyError (Option (List Nat)) :=
  match token with
  | none => .ok none
  | some token =>
    if token = "" then .ok none
    else
      match b64urlDecode token with
      | .error _ => invalidPageToken token
      | .ok raw =>
        match String.fromUTF8? ⟨raw.toArray⟩ with
        | none => invalidPageToken token
        | some text =>
          let text := match text.toList with
            | c :: rest => if c.toNat = 0xfeff then rest else c :: rest
            | [] => []
          match (JsonText.loads Cursor.maxStrDigits text).bind (JsonText.Value.member? (JsonText.codePoints "after")) with
          | some (.text after) => .ok (some after)
          | _ => invalidPageToken token

/-- `items[start : stop]` for a start that is not negative. -/
def pySlice {α : Type} (items : List α) (start : Nat) (stop : Int) : List α :=
  let stop := if stop < 0 then (items.length + stop).toNat else stop.toNat
  (items.drop start).take (stop - start)

/-- Where the page after an item begins: behind the item, or at the end if the item is gone. -/
def startAfter {α : Type} (items : List α) (key : α → String) : Option (List Nat) → Nat
  | none => 0
  | some after =>
    match items.findIdx? fun i => JsonText.codePoints (key i) = after with
    | some i => i + 1
    | none => items.length

/-- One page of the items, and the token of the next page. -/
def paginate {α : Type} (items : List α) (key : α → String) (pageToken : Option String) (pageSize : Int) :
    Except PyError (List α × Option String) :=
  match decodePageToken pageToken with
  | .error e => .error e
  | .ok after =>
    let start := startAfter items key after
    let page := pySlice items start (start + pageSize)
    .ok (page, match page.getLast? with
      | none => none
      | some last => if start + pageSize < items.length then some (encodePageToken (key last)) else none)

/-- The recorded attempts of a subscription, in the order they were made. -/
def SubscriptionStore.deliveryAttempts (store : SubscriptionStore) (subscriptionId : String) : List DeliveryAttempt :=
  store.attempts.filter fun a => a.subscriptionId = subscriptionId

namespace Publisher

/-- The page size of a request: no limit, and a limit of zero, mean the default. -/
def pageLimit (cfg : PublisherConfig) : Option Int → Int
  | none => cfg.pageSize
  | some n => if n = 0 then cfg.pageSize else n

/-- One page of the subscriptions, and the token of the next page. -/
def paginateSubscriptions (cfg : PublisherConfig) (pageToken : Option String) (limit : Option Int) :
    M (List Subscription × Option String) := do
  let hs ← listSubscriptions
  orRaise (paginate (hs.map Handle.sub) Subscription.subscriptionId pageToken (pageLimit cfg limit))

/-- One page of the attempts recorded in `store`, and the token of the next page. An unknown
    subscription is an error. -/
def listDeliveryAttempts (cfg : PublisherConfig) (store : SubscriptionStore) (subscriptionId : String)
    (pageToken : Option String) (limit : Option Int) : M (List DeliveryAttempt × Option String) := do
  let _ ← getSubscription subscriptionId
  orRaise (paginate (store.deliveryAttempts subscriptionId) DeliveryAttempt.deliveryAttemptId pageToken
    (pageLimit cfg limit))

end Publisher

end A2AEvents
