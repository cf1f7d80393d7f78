import Mathlib.Data.List.Sort
import A2AEvents.ForStd.Base64
import A2AEvents.Native.Errors

/-!
# Canonical JSON and signatures

`signing.py`: the canonical encoding of RFC 8785 (members sorted by UTF-16 code
units, ECMAScript number layout), the signing input
`timestamp + "." + canonical_json(event)` and its Ed25519 signature.

The elliptic-curve operations belong to a library and are parameters: a key signs
bytes, a public key accepts or rejects a pair of signature and bytes.
-/

namespace A2AEvents

abbrev Bytes := List UInt8

/-- `text.encode("utf-8")`. -/
def encodeUtf8 (s : String) : Bytes := s.toByteArray.data.toList

/-! ## Numbers -/

/-- The decimal digits of a number. -/
def decimalText (n : Nat) : List Char := Nat.toDigits 10 n

/-- The layout of a finite non-zero float: plain notation as long as the decimal point
    stays within reach of the digits, exponent notation beyond. -/
def esDecimal (d : Decimal) : List Char :=
  let digits := decimalText d.digits
  let k : Int := digits.length
  let n : Int := d.exponent + k
  let body :=
    if k ≤ n ∧ n ≤ 21 then digits ++ List.replicate (n - k).toNat '0'
    else if 0 < n ∧ n ≤ 21 then digits.take n.toNat ++ '.' :: digits.drop n.toNat
    else if -6 < n ∧ n ≤ 0 then '0' :: '.' :: (List.replicate (-n).toNat '0' ++ digits)
    else
      let exponent := n - 1
      let mantissa := match digits with
        | [] => []
        | [c] => [c]
        | c :: rest => c :: '.' :: rest
      mantissa ++ 'e' :: (if exponent ≥ 0 then '+' else '-') :: decimalText exponent.natAbs
  if d.negative then '-' :: body else body

/-- Serialize a float. -/
def esNumber : PyFloat → Except PyError (List Char)
  | .nan | .inf _ => .error (.valueError "NaN and Infinity are not valid JSON numbers")
  | .zero _ => .ok ['0']
  | .finite d => .ok (esDecimal d)

/-- `str` of an integer. -/
def intText (i : Int) : Except PyError (List Char) :=
  let digits := decimalText i.natAbs
  if digits.length > 4300 then
    .error (.valueError "Exceeds the limit (4300 digits) for integer string conversion")
  else .ok (if i < 0 then '-' :: digits else digits)

/-! ## Texts and members -/

/-- One character of a JSON text. -/
def escapeChar (c : Char) : List Char :=
  let backslash := Char.ofNat 92
  let n := c.toNat
  if n = 34 ∨ n = 92 then [backslash, c]
  else if n = 8 then [backslash, 'b']
  else if n = 12 then [backslash, 'f']
  else if n = 10 then [backslash, 'n']
  else if n = 13 then [backslash, 'r']
  else if n = 9 then [backslash, 't']
  else if n < 32 then [backslash, 'u', '0', '0', Nat.digitChar (n / 16), Nat.digitChar (n % 16)]
  else [c]

/-- `json.dumps(text, ensure_ascii=False)`. -/
def jsonString (s : String) : List Char :=
  Char.ofNat 34 :: s.toList.flatMap escapeChar ++ [Char.ofNat 34]

/-- The UTF-16 code units of a character. -/
def utf16Units (c : Char) : List Nat :=
  let n := c.toNat
  if n < 0x10000 then [n]
  else [0xd800 + (n - 0x10000) / 0x400, 0xdc00 + (n - 0x10000) % 0x400]

/-- The sort key of a member name. -/
def utf16Key (s : String) : List Nat := s.toList.flatMap utf16Units

/-- Keep the order of names whose keys are equal or ascending. -/
def memberLe (a b : String × Except PyError (List Char)) : Prop := ¬ utf16Key b.1 < utf16Key a.1

instance : DecidableRel memberLe := fun _ _ => inferInstanceAs (Decidable (¬ _))

/-- The first exception, or all values. -/
def sequence {α : Type} : List (Except PyError α) → Except PyError (List α)
  | [] => .ok []
  | .error e :: _ => .error e
  | .ok a :: rest => (sequence rest).map (a :: ·)

/-- Members separated by commas. -/
def commaJoin : List (List Char) → List Char
  | [] => []
  | [t] => t
  | t :: rest => t ++ ',' :: commaJoin rest

/-- One member, name first. -/
def memberText (m : String × Except PyError (List Char)) : Except PyError (List Char) :=
  m.2.map fun v => jsonString m.1 ++ ':' :: v

/-! ## The canonical encoding -/

mutual

/-- The canonical text of a value. -/
def canon : Json → Except PyError (List Char)
  | .bool true => .ok ['t', 'r', 'u', 'e']
  | .bool false => .ok ['f', 'a', 'l', 's', 'e']
  | .null => .ok ['n', 'u', 'l', 'l']
  | .str s => .ok (jsonString s)
  | .int i => intText i
  | .float f => esNumber f
  | .obj members =>
    (sequence (((canonMembers members).insertionSort memberLe).map memberText)).map fun ts =>
      Char.ofNat 123 :: commaJoin ts ++ [Char.ofNat 125]
  | .arr xs => (sequence (canonList xs)).map fun ts => '[' :: commaJoin ts ++ [']']
  | .other name => .error (.typeError ("Cannot canonicalize value of type " ++ name))

/-- The canonical texts of the items of an array. -/
def canonList : List Json → List (Except PyError (List Char))
  | [] => []
  | x :: xs => canon x :: canonList xs

/-- The members of an object with their canonical texts, in insertion order. -/
def canonMembers : List (String × Json) → List (String × Except PyError (List Char))
  | [] => []
  | (k, v) :: rest => (k, canon v) :: canonMembers rest

end

/-- The canonical JSON encoding of a value. -/
def canonicalize (obj : Json) : Except PyError Bytes :=
  (canon obj).map fun text => encodeUtf8 (String.ofList text)

def signingInput (timestamp : String) (event : Json) : Except PyError Bytes :=
  (canonicalize event).map fun body => encodeUtf8 timestamp ++ encodeUtf8 "." ++ body

/-! ## Signatures -/

def signaturePrefix : String := "v1="

/-- `_b64url`: URL-safe Base64 without padding. -/
def b64url (raw : Bytes) : String := String.ofList (Base64.strip (Base64.encode raw))

/-- `DeliveryTokenIssuer.issue`: the token of a subscription, from the HMAC of its id. -/
def issueToken (mac : String → Bytes) (subscriptionId : String) : String := "dtok_" ++ b64url (mac subscriptionId)

/-- `_b64url_decode`: the padding is recomputed from the length. -/
def b64urlDecode (value : String) : Except PyError Bytes :=
  let text := value.toList
  if text.all fun c => c.toNat < 128 then
    match Base64.decode (text ++ Base64.padding text.length) with
    | some raw => .ok raw
    | none => .error (.valueError "Incorrect padding")
  else .error (.valueError "string argument should contain only ASCII characters")

/-- A signing key; `signRaw` is the signature function of the private key. -/
structure SigningKey where
  kid : String
  signRaw : Bytes → Bytes

/-- A public key; `verifyRaw signature message` accepts or rejects. -/
structure PublicKey where
  verifyRaw : Bytes → Bytes → Bool

/-- The signature header of an event. -/
def SigningKey.sign (key : SigningKey) (timestamp : String) (event : Json) :
    Except PyError String :=
  (signingInput timestamp event).map fun input => signaturePrefix ++ b64url (key.signRaw input)

/-- `text[len(prefix):]` when the text starts with the prefix. -/
def stripPrefix (start text : String) : String :=
  if start.toList.isPrefixOf text.toList then String.ofList (text.toList.drop start.length)
  else text

/-- Verify a signature header against an event. Signatures that cannot be decoded are
    rejected, a payload without a canonical encoding raises. -/
def verify (publicKey : PublicKey) (timestamp : String) (event : Json) (signature : String) :
    Except PyError Bool :=
  match b64urlDecode (stripPrefix signaturePrefix signature) with
  | .error _ => .ok false
  | .ok raw =>
    match signingInput timestamp event with
    | .ok input => .ok (publicKey.verifyRaw raw input)
    | .error (.valueError _) => .ok false
    | .error e => .error e

end A2AEvents
