import A2AEvents.Spec.CursorCorrect

/-!
# Which texts are cursors

A text that is no cursor is to be refused with `INVALID_CURSOR`. The check in front of `int`
is `str.isdigit`, which accepts more than `int` reads: digits that are no decimal digits, and texts
of any length. Behind such a check `int` raises `ValueError`; everywhere else the refusal is the
one of the protocol.

What `encode` makes is decoded to what it was made of, whatever the topic is called, for all
offsets that the interpreter prints.

## Key results

- `errors_reported_iff`: the texts at which decoding returns or refuses with `INVALID_CURSOR`
- `cursors_faithful`: cursors decode to their topic and offset, determine both, and are ordered
  like their offsets
-/

namespace A2AEvents.Cursor

/-! ## Refusals -/

/-- The call returns, or refuses the cursor. -/
def Reports {α : Type} (r : Except PyError α) : Prop := ∀ e, r = .error e → e.code? = some .invalidCursor

/-- Decimal digits, and no more of them than the interpreter reads. -/
def Convertible (raw : List Char) : Prop := raw.length ≤ maxStrDigits ∧ ∀ c ∈ raw, (decimalValue c).isSome = true

/-- What follows the last colon of the cursor is convertible if it passes for an offset of a topic. -/
def Vetted (cursor : String) : Prop :=
  (rpartition cursor.toList).1 ≠ [] → isDigit (rpartition cursor.toList).2 = true →
    Convertible (rpartition cursor.toList).2

theorem Reports.ok {α : Type} (a : α) : Reports (.ok a : Except PyError α) := by
  intro e h
  cases h

theorem reports_map_iff {α β : Type} {r : Except PyError α} {f : α → β} : Reports (r.map f) ↔ Reports r := by
  cases r with
  | ok a => exact ⟨fun _ => .ok a, fun _ => .ok (f a)⟩
  | error e =>
    constructor
    · intro h e' he
      cases he
      exact h e rfl
    · intro h e' he
      cases he
      exact h e rfl

/-- Decimal digits spell a number, other characters do not. -/
theorem digitsValue_isSome_iff {raw : List Char} {acc : Nat} :
    (digitsValue acc raw).isSome = true ↔ ∀ c ∈ raw, (decimalValue c).isSome = true := by
  induction raw generalizing acc with
  | nil => simp [digitsValue]
  | cons c rest ih =>
    rw [digitsValue, List.forall_mem_cons]
    cases decimalValue c with
    | none => simp
    | some d => simp [ih]

theorem exists_parseInt_iff {raw : List Char} : (∃ n, parseInt raw = .ok n) ↔ Convertible raw := by
  unfold parseInt Convertible
  rw [← @digitsValue_isSome_iff raw 0]
  by_cases hlen : raw.length > maxStrDigits
  · simp [if_pos hlen, Nat.not_le.mpr hlen]
  · rw [if_neg hlen]
    cases digitsValue 0 raw with
    | none => simp
    | some n => simp [Nat.not_lt.mp hlen]

/-- Decoding returns or refuses the cursor exactly where what passes for an offset can be converted. -/
theorem reports_split_iff {cursor : String} : Reports (split cursor) ↔ Vetted cursor := by
  constructor
  · intro hreports htopic hdigit
    rw [← exists_parseInt_iff]
    cases hp : parseInt (rpartition cursor.toList).2 with
    | ok n => exact ⟨n, rfl⟩
    | error e =>
      -- the guard lets the text pass, and the exception of `int` escapes
      have hsplit : split cursor = .error e := by
        simp [split, htopic, hdigit, hp]
      obtain ⟨message, rfl⟩ := parseInt_error hp
      cases hreports _ hsplit
  · intro hvetted e he
    rcases split_error he with hcode | ⟨htopic, hdigit, hparse⟩
    · exact hcode
    · obtain ⟨n, hn⟩ := exists_parseInt_iff.mpr (hvetted htopic hdigit)
      rw [hparse] at hn
      cases hn

/-- A cursor of another topic is refused as well. -/
theorem Reports.offsetFor {cursor : String} (h : Reports (split cursor)) (topic : String) :
    Reports (offsetFor topic cursor) := by
  intro e he
  cases hs : split cursor with
  | error e' =>
    simp only [Cursor.offsetFor, hs, Except.error.injEq] at he
    rw [← he]
    exact h e' hs
  | ok p =>
    simp only [Cursor.offsetFor, hs] at he
    split at he
    · cases he
      rfl
    · cases he

/-- Decoding a text returns or refuses it with `INVALID_CURSOR` exactly where the digits that `isdigit`
    accepts are digits that `int` reads. -/
theorem errors_reported_iff (cursor : String) :
    (Reports (offsetOf cursor) ∧ Reports (topicOf cursor) ∧ ∀ topic, Reports (offsetFor topic cursor)) ↔
      Vetted cursor := by
  rw [offsetOf, topicOf, reports_map_iff, reports_map_iff, reports_split_iff]
  constructor
  · exact fun h => h.1
  · intro h
    exact ⟨h, h, (reports_split_iff.mpr h).offsetFor⟩

/-- A superscript passes for an offset, and `int` raises `ValueError`. -/
theorem superscript_escapes :
    offsetOf "t:²" = .error (.valueError "invalid literal for int() with base 10") ∧
    topicOf "t:²" = .error (.valueError "invalid literal for int() with base 10") ∧
    ¬ ∀ cursor, Reports (offsetOf cursor) ∧ Reports (topicOf cursor) ∧ ∀ topic, Reports (offsetFor topic cursor) := by
  have hoffset : offsetOf "t:²" = .error (.valueError "invalid literal for int() with base 10") := rfl
  refine ⟨hoffset, rfl, fun h => ?_⟩
  cases (h "t:²").1 _ hoffset

/-! ## Cursors that were encoded -/

/-- Cursors decode to their topic and offset, determine both, and within the padded width those of a topic
    are ordered like their offsets. -/
theorem cursors_faithful {topic topic' : String} (hne : topic ≠ "") (hne' : topic' ≠ "") {i j : Nat}
    (hi : i < 10 ^ maxStrDigits) (hj : j < 10 ^ maxStrDigits) :
    ∃ ci cj, encode topic i = .ok ci ∧ encode topic' j = .ok cj ∧
      (topicOf ci = .ok topic ∧ offsetFor topic ci = .ok i) ∧
      (ci = cj ↔ topic = topic' ∧ i = j) ∧
      (topic = topic' → i < 10 ^ 16 → j < 10 ^ 16 → (ci < cj ↔ i < j)) := by
  obtain ⟨ci, hci⟩ := exists_encode_of_digits topic hi
  obtain ⟨cj, hcj⟩ := exists_encode_of_digits topic' hj
  refine ⟨ci, cj, hci, hcj, ⟨topicOf_encode hne hci, offsetFor_encode hne hci⟩, ⟨?_, ?_⟩, ?_⟩
  · rintro rfl
    exact ⟨encode_topic_inj hci hcj, Int.ofNat_inj.mp (encode_inj (encode_topic_inj hci hcj ▸ hci) hcj)⟩
  · rintro ⟨rfl, rfl⟩
    rw [hci] at hcj
    cases hcj
    rfl
  · rintro rfl hi hj
    exact encode_lt_encode hi hj hci hcj

/-- A topic whose name looks like a cursor itself. -/
theorem cursors_faithful_sample :
    ∃ ci cj, encode "a:7" 9 = .ok ci ∧ encode "a:7" 10 = .ok cj ∧
      (topicOf ci = .ok "a:7" ∧ offsetFor "a:7" ci = .ok 9) ∧ (ci = cj ↔ "a:7" = "a:7" ∧ 9 = 10) ∧
      ("a:7" = "a:7" → 9 < 10 ^ 16 → 10 < 10 ^ 16 → (ci < cj ↔ 9 < 10)) := by
  have hlimit : 10 < 10 ^ maxStrDigits := Nat.lt_pow_self (n := maxStrDigits) (by decide) |>.trans_le' (by decide)
  exact cursors_faithful (by decide) (by decide) (Nat.lt_of_succ_lt hlimit) hlimit

/-- Offsets beyond what the interpreter prints have no cursor. -/
theorem encode_eq_error {topic : String} {n : Nat} (h : 10 ^ maxStrDigits ≤ n) : encode topic n =
    .error (.valueError "Exceeds the limit (4300 digits) for integer string conversion") := by
  have hlong : maxStrDigits < (Nat.toDigits 10 n).length := by
    rw [← Nat.not_le, Nat.length_toDigits_le_iff (by decide) (by decide)]
    exact Nat.not_lt.mpr h
  simp only [encode, Int.toNat_natCast]
  rw [if_neg (by omega), if_pos hlong]

/-- The first offset without a cursor. -/
theorem unprintable_offset :
    encode "t" (10 ^ maxStrDigits : Nat) =
      .error (.valueError "Exceeds the limit (4300 digits) for integer string conversion") ∧
    ¬ ∀ (topic : String) (i : Nat), topic ≠ "" →
      ∃ c, encode topic i = .ok c ∧ topicOf c = .ok topic ∧ offsetFor topic c = .ok i := by
  have hraises : encode "t" (10 ^ maxStrDigits : Nat) =
      .error (.valueError "Exceeds the limit (4300 digits) for integer string conversion") :=
    encode_eq_error (Nat.le_refl (10 ^ maxStrDigits))
  refine ⟨hraises, fun h => ?_⟩
  obtain ⟨c, hc, -⟩ := h "t" (10 ^ maxStrDigits) (by decide)
  rw [hraises] at hc
  cases hc

end A2AEvents.Cursor
