import A2AEvents.Native.Errors

/-!
# Opaque, per-topic cursors

`cursor.py`: a cursor is the text `<topic>:<offset>` with the offset zero-padded to
sixteen digits. Decoding splits at the last colon, asks `str.isdigit` of the rest
and hands it to `int`. Both speak about Unicode digits: `isdigit` accepts the code
points whose numeric type is Decimal or Digit, `int` reads the decimal ones only,
and texts beyond the interpreter's limit of 4300 digits not at all.
-/

namespace A2AEvents

namespace Cursor

/-- Sentinels accepted as `fromCursor`. -/
def earliest : String := "earliest"

def latest : String := "latest"

/-- Width of the zero-padded offset. -/
def offsetWidth : Nat := 16

/-- The interpreter's limit on the digits of an integer that is read or printed. -/
def maxStrDigits : Nat := 4300

/-- The zeros of the decimal digit blocks of Unicode; the digits one to nine follow. -/
def decimalZeros : List Nat :=
  [0x30, 0x660, 0x6f0, 0x7c0, 0x966, 0x9e6, 0xa66, 0xae6, 0xb66, 0xbe6, 0xc66, 0xce6, 0xd66,
   0xde6, 0xe50, 0xed0, 0xf20, 0x1040, 0x1090, 0x17e0, 0x1810, 0x1946, 0x19d0, 0x1a80, 0x1a90,
   0x1b50, 0x1bb0, 0x1c40, 0x1c50, 0xa620, 0xa8d0, 0xa900, 0xa9d0, 0xa9f0, 0xaa50, 0xabf0,
   0xff10, 0x104a0, 0x10d30, 0x11066, 0x110f0, 0x11136, 0x111d0, 0x112f0, 0x11450, 0x114d0,
   0x11650, 0x116c0, 0x11730, 0x118e0, 0x11950, 0x11c50, 0x11d50, 0x11da0, 0x16a60, 0x16ac0,
   0x16b50, 0x1d7ce, 0x1d7d8, 0x1d7e2, 0x1d7ec, 0x1d7f6, 0x1e140, 0x1e2f0, 0x1e950, 0x1fbf0]

/-- The digits that are no decimal digits (superscripts, circled digits and the like),
    as inclusive ranges. -/
def otherDigits : List (Nat × Nat) :=
  [(0xb2, 0xb3), (0xb9, 0xb9), (0x1369, 0x1371), (0x19da, 0x19da), (0x2070, 0x2070),
   (0x2074, 0x2079), (0x2080, 0x2089), (0x2460, 0x2468), (0x2474, 0x247c), (0x2488, 0x2490),
   (0x24ea, 0x24ea), (0x24f5, 0x24fd), (0x24ff, 0x24ff), (0x2776, 0x277e), (0x2780, 0x2788),
   (0x278a, 0x2792), (0x10a40, 0x10a43), (0x10e60, 0x10e68), (0x11052, 0x1105a),
   (0x1f100, 0x1f10a)]

/-- The value of a decimal digit. -/
def decimalValue (c : Char) : Option Nat :=
  (decimalZeros.find? fun z => z ≤ c.toNat ∧ c.toNat ≤ z + 9).map fun z => c.toNat - z

/-- `str.isdigit` of one character. -/
def isDigitChar (c : Char) : Bool :=
  (decimalValue c).isSome || otherDigits.any fun r => r.1 ≤ c.toNat && c.toNat ≤ r.2

/-- `str.isdigit`. -/
def isDigit (raw : List Char) : Bool := raw ≠ [] && raw.all isDigitChar

/-- The number that decimal digits spell, read on from `acc`. -/
def digitsValue (acc : Nat) : List Char → Option Nat
  | [] => some acc
  | c :: rest =>
    match decimalValue c with
    | some d => digitsValue (10 * acc + d) rest
    | none => none

/-- `int` of a text of digits. -/
def parseInt (raw : List Char) : Except PyError Nat :=
  if raw.length > maxStrDigits then
    .error (.valueError "Exceeds the limit (4300 digits) for integer string conversion")
  else
    match digitsValue 0 raw with
    | some n => .ok n
    | none => .error (.valueError "invalid literal for int() with base 10")

/-- `text.rpartition(":")`: what stands before the last colon and after it; without
    a colon nothing stands before it. -/
def rpartition : List Char → List Char × List Char
  | [] => ([], [])
  | c :: rest =>
    if ':' ∈ rest then
      let p := rpartition rest
      (c :: p.1, p.2)
    else if c = ':' then ([], rest)
    else ([], c :: rest)

/-- Encode the cursor of `topic` at `offset`. -/
def encode (topic : String) (offset : Int) : Except PyError String :=
  if offset < 0 then .error (.valueError "offset must be non-negative")
  else
    let digits := Nat.toDigits 10 offset.toNat
    if digits.length > maxStrDigits then
      .error (.valueError "Exceeds the limit (4300 digits) for integer string conversion")
    else
      .ok (String.ofList (topic.toList ++ ':' ::
        (List.replicate (offsetWidth - digits.length) '0' ++ digits)))

/-- Decode a cursor into its topic and offset. -/
def split (cursor : String) : Except PyError (String × Nat) :=
  let (topic, raw) := rpartition cursor.toList
  if topic = [] || !isDigit raw then
    raiseA2A .invalidCursor ("Not a valid cursor: " ++ repr cursor ++ ".") [("cursor", .str cursor)]
  else
    match parseInt raw with
    | .ok n => .ok (String.ofList topic, n)
    | .error e => .error e

/-- The offset of a cursor. -/
def offsetOf (cursor : String) : Except PyError Nat := (split cursor).map Prod.snd

/-- The offset of a cursor that has to belong to `topic`. -/
def offsetFor (topic cursor : String) : Except PyError Nat :=
  match split cursor with
  | .error e => .error e
  | .ok (cursorTopic, offset) =>
    if cursorTopic ≠ topic then
      raiseA2A .invalidCursor
        ("Cursor " ++ repr cursor ++ " does not belong to topic " ++ repr topic ++ ".")
        [("cursor", .str cursor), ("topic", .str topic)]
    else .ok offset

/-- The topic of a cursor. -/
def topicOf (cursor : String) : Except PyError String := (split cursor).map Prod.fst

end Cursor

end A2AEvents
