import A2AEvents.Native.Json

/-!
# Error model

`errors.py`: protocol errors carry a symbolic code, a message and details. The
other exceptions that the modelled code can let escape are kept apart, since only
protocol errors are turned into error responses.
-/

namespace A2AEvents

/-- Symbolic error codes. -/
inductive ErrorCode where
  | extensionNotSupported
  | topicNotFound
  | topicNotAuthorized
  | selectorNotSupported
  | invalidSelector
  | invalidCursor
  | cursorExpired
  | subscriptionNotFound
  | subscriptionExpired
  | deliveryModeNotSupported
  | subscriberCardUnreachable
  | subscriberCardInvalid
  | deliveryEndpointNotDeclared
  | deliveryEndpointBlocked
  | signatureInvalid
  | replayNotSupported
  | rateLimited
  | leaseTooLong
  | leaseTooShort
  deriving DecidableEq, Repr

/-- A protocol error. -/
structure A2AEventsError where
  code : ErrorCode
  message : String
  details : List (String × Json) := []

/-- The exceptions of the modelled code. -/
inductive PyError where
  | a2a (err : A2AEventsError)
  | valueError (message : String)
  | typeError (message : String)
  | keyError (key : String)
  | other (kind : String)

/-- `raise A2AEventsError(code, message, details)`. -/
def raiseA2A {α : Type} (code : ErrorCode) (message : String)
    (details : List (String × Json) := []) : Except PyError α :=
  .error (.a2a ⟨code, message, details⟩)

/-- The code of a protocol error, if it is one. -/
def PyError.code? : PyError → Option ErrorCode
  | .a2a err => some err.code
  | _ => none

/-- One character inside `repr` of a text delimited by `quote`. -/
def reprChar (quote c : Char) : List Char :=
  let backslash := Char.ofNat 92
  if c = backslash ∨ c = quote then [backslash, c]
  else if c = '\n' then [backslash, 'n']
  else if c = '\r' then [backslash, 'r']
  else if c = '\t' then [backslash, 't']
  else if c.toNat < 32 ∨ c.toNat = 127 then
    [backslash, 'x', Nat.digitChar (c.toNat / 16), Nat.digitChar (c.toNat % 16)]
  else [c]

/-- `repr` of a text: single quotes, unless these occur in it and double ones do not. -/
def repr (s : String) : String :=
  let single := Char.ofNat 39
  let double := Char.ofNat 34
  let quote := if single ∈ s.toList ∧ double ∉ s.toList then double else single
  String.ofList (quote :: s.toList.flatMap (reprChar quote) ++ [quote])

end A2AEvents
