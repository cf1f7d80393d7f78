import Mathlib.Tactic.Ring
import A2AEvents.Native.Cursor

/-!
# Cursors decode to what was encoded

A cursor that `encode` makes for a named topic splits into that topic and offset
again, and within the width of the zero-padded offset the textual order of the
cursors of one topic is the order of their offsets.

## Key results

- `split_encode`: decoding an encoded cursor
- `encode_inj`: offsets of equal cursors are equal
- `encode_lt_encode`: text order is offset order
- `encode_order_breaks`: beyond the width it is not
-/

namespace A2AEvents.Cursor

/-! ## Digits -/

private theorem isDigit_bounds {c : Char} (h : c.isDigit = true) :
    48 ≤ c.toNat ∧ c.toNat ≤ 57 := by
  simp only [Char.isDigit, Bool.and_eq_true, decide_eq_true_eq, UInt32.le_iff_toNat_le,
    ge_iff_le] at h
  exact h

/-- The decimal digits of ASCII are read as their value. -/
private theorem decimalValue_of_isDigit {c : Char} (h : c.isDigit = true) :
    decimalValue c = some (c.toNat - '0'.toNat) := by
  have hc := isDigit_bounds h
  have hfind : decimalZeros.find? (fun z => z ≤ c.toNat ∧ c.toNat ≤ z + 9) = some 0x30 := by
    rw [decimalZeros, List.find?_cons_of_pos (by simpa using hc)]
  simp only [decimalValue, hfind, Option.map_some]
  rfl

private theorem isDigitChar_of_isDigit {c : Char} (h : c.isDigit = true) :
    isDigitChar c = true := by
  simp [isDigitChar, decimalValue_of_isDigit h]

/-- Reading a text of ASCII digits gives the number it spells. -/
private theorem digitsValue_eq {l : List Char} (h : ∀ c ∈ l, c.isDigit = true) (acc : Nat) :
    digitsValue acc l = some (Nat.ofDigitChars 10 l acc) := by
  induction l generalizing acc with
  | nil => rfl
  | cons c rest ih =>
    simp only [digitsValue, decimalValue_of_isDigit (h c (by simp)), Nat.ofDigitChars_cons]
    exact ih (fun d hd => h d (by simp [hd])) _

/-- The zero-padded offset of a cursor. -/
private def padded (n : Nat) : List Char :=
  List.replicate (offsetWidth - (Nat.toDigits 10 n).length) '0' ++ Nat.toDigits 10 n

private theorem padded_isDigit (n : Nat) : ∀ c ∈ padded n, c.isDigit = true := by
  intro c hc
  rcases List.mem_append.mp hc with h | h
  · rw [List.eq_of_mem_replicate h]; rfl
  · exact Nat.isDigit_of_mem_toDigits (by decide) (by decide) h

private theorem ofDigitChars_padded (n : Nat) : Nat.ofDigitChars 10 (padded n) 0 = n := by
  simp [padded, Nat.ofDigitChars_append]

private theorem padded_ne_nil (n : Nat) : padded n ≠ [] := by
  simp [padded]

private theorem length_padded (n : Nat) :
    (padded n).length = max offsetWidth (Nat.toDigits 10 n).length := by
  simp only [padded, List.length_append, List.length_replicate]
  omega

private theorem length_padded_of_lt {n : Nat} (h : n < 10 ^ offsetWidth) :
    (padded n).length = offsetWidth := by
  have hle : (Nat.toDigits 10 n).length ≤ offsetWidth :=
    (Nat.length_toDigits_le_iff (by decide) (by decide)).mpr h
  rw [length_padded]
  omega

/-- A digit is no colon. -/
private theorem colon_notMem {l : List Char} (h : ∀ c ∈ l, c.isDigit = true) : ':' ∉ l :=
  fun hc => absurd (h _ hc) (by decide)

/-! ## Encoding and decoding -/

private theorem rpartition_append (topic : List Char) {raw : List Char} (h : ':' ∉ raw) :
    rpartition (topic ++ ':' :: raw) = (topic, raw) := by
  induction topic with
  | nil => simp [rpartition, h]
  | cons c rest ih => simp [rpartition, ih]

/-- What `encode` returns. -/
private theorem encode_eq_ok {topic : String} {offset : Int} {cursor : String}
    (h : encode topic offset = .ok cursor) :
    0 ≤ offset ∧ (Nat.toDigits 10 offset.toNat).length ≤ maxStrDigits ∧
      cursor.toList = topic.toList ++ ':' :: padded offset.toNat := by
  simp only [encode] at h
  split at h
  · cases h
  · split at h
    · cases h
    · rename_i hneg hlen
      simp only [Except.ok.injEq] at h
      subst h
      refine ⟨by omega, by omega, ?_⟩
      simp [padded]

theorem encode_nonneg {topic : String} {offset : Int} {cursor : String}
    (h : encode topic offset = .ok cursor) : 0 ≤ offset := (encode_eq_ok h).1

/-- Decoding an encoded cursor. -/
theorem split_encode {topic : String} {offset : Int} {cursor : String} (hne : topic ≠ "")
    (h : encode topic offset = .ok cursor) : split cursor = .ok (topic, offset.toNat) := by
  obtain ⟨-, hlen, htext⟩ := encode_eq_ok h
  have hdigits := padded_isDigit offset.toNat
  have hisDigit : isDigit (padded offset.toNat) = true := by
    simp only [isDigit, Bool.and_eq_true, decide_eq_true_eq, List.all_eq_true]
    exact ⟨padded_ne_nil _, fun c hc => isDigitChar_of_isDigit (hdigits c hc)⟩
  have hparse : parseInt (padded offset.toNat) = .ok offset.toNat := by
    have hle : ¬ (padded offset.toNat).length > maxStrDigits := by
      have hmax : offsetWidth ≤ maxStrDigits := by decide
      rw [length_padded]
      omega
    simp only [parseInt, if_neg hle, digitsValue_eq hdigits, ofDigitChars_padded]
  have htopic : topic.toList ≠ [] := fun hnil => hne (String.toList_inj.mp hnil)
  simp only [split, htext, rpartition_append _ (colon_notMem hdigits), htopic, decide_false,
    hisDigit, Bool.not_true, Bool.or_self, Bool.false_eq_true, if_false, hparse,
    String.ofList_toList]

/-- The cursors of a topic without a name do not decode. -/
theorem split_encode_empty {offset : Int} {cursor : String} (h : encode "" offset = .ok cursor) :
    ∃ e, split cursor = .error e ∧ e.code? = some .invalidCursor := by
  obtain ⟨-, -, htext⟩ := encode_eq_ok h
  have hempty : (rpartition cursor.toList).1 = [] := by
    rw [htext, rpartition_append _ (colon_notMem (padded_isDigit _))]
    rfl
  refine ⟨.a2a ⟨.invalidCursor, "Not a valid cursor: " ++ repr cursor ++ ".", [("cursor", .str cursor)]⟩,
    ?_, rfl⟩
  simp only [split, hempty, decide_true, Bool.true_or, if_true]
  rfl

/-- Whatever an encoded cursor decodes to is what was encoded. -/
theorem eq_of_split_encode {topic topic' : String} {offset : Int} {n : Nat} {cursor : String}
    (h : encode topic offset = .ok cursor) (hs : split cursor = .ok (topic', n)) :
    topic' = topic ∧ n = offset.toNat ∧ topic ≠ "" := by
  by_cases hne : topic = ""
  · subst hne
    obtain ⟨e, he, -⟩ := split_encode_empty h
    rw [he] at hs
    cases hs
  · rw [split_encode hne h] at hs
    simp only [Except.ok.injEq, Prod.mk.injEq] at hs
    exact ⟨hs.1.symm, hs.2.symm, hne⟩

/-- The offset of an encoded cursor. -/
theorem offsetOf_encode {topic : String} {offset : Int} {cursor : String} (hne : topic ≠ "")
    (h : encode topic offset = .ok cursor) : offsetOf cursor = .ok offset.toNat := by
  simp [offsetOf, split_encode hne h, Except.map]

/-- The topic of an encoded cursor. -/
theorem topicOf_encode {topic : String} {offset : Int} {cursor : String} (hne : topic ≠ "")
    (h : encode topic offset = .ok cursor) : topicOf cursor = .ok topic := by
  simp [topicOf, split_encode hne h, Except.map]

/-- Whatever offset an encoded cursor has is the encoded one. -/
theorem eq_of_offsetOf_encode {topic : String} {offset : Int} {n : Nat} {cursor : String}
    (h : encode topic offset = .ok cursor) (hs : offsetOf cursor = .ok n) :
    n = offset.toNat ∧ topic ≠ "" := by
  simp only [offsetOf] at hs
  cases hsplit : split cursor with
  | error e => simp [hsplit, Except.map] at hs
  | ok p =>
    obtain ⟨topic', m⟩ := p
    simp only [hsplit, Except.map, Except.ok.injEq] at hs
    subst hs
    exact (eq_of_split_encode h hsplit).2

/-- A cursor with a topic has an offset, too. -/
theorem exists_split {cursor topic : String} (h : topicOf cursor = .ok topic) :
    ∃ o, split cursor = .ok (topic, o) ∧ offsetOf cursor = .ok o := by
  simp only [topicOf, offsetOf] at h ⊢
  cases hs : split cursor with
  | error e => simp [hs, Except.map] at h
  | ok p =>
    simp only [hs, Except.map, Except.ok.injEq] at h
    exact ⟨p.2, by rw [← h], rfl⟩

/-- The offset of a cursor in its own topic. -/
theorem offsetFor_encode {topic : String} {offset : Int} {cursor : String} (hne : topic ≠ "")
    (h : encode topic offset = .ok cursor) : offsetFor topic cursor = .ok offset.toNat := by
  simp [offsetFor, split_encode hne h]

/-- Offsets of equal cursors are equal, whatever the topics are called. -/
theorem encode_inj {topic : String} {a b : Int} {cursor : String}
    (ha : encode topic a = .ok cursor) (hb : encode topic b = .ok cursor) : a = b := by
  obtain ⟨ha0, -, ha⟩ := encode_eq_ok ha
  obtain ⟨hb0, -, hb⟩ := encode_eq_ok hb
  have hpad : padded a.toNat = padded b.toNat := by
    have := ha.symm.trans hb
    simpa using this
  have := congrArg (fun l => Nat.ofDigitChars 10 l 0) hpad
  simp only [ofDigitChars_padded] at this
  omega

/-- Equal cursors belong to one topic. -/
theorem encode_topic_inj {topic topic' : String} {a b : Int} {cursor : String}
    (ha : encode topic a = .ok cursor) (hb : encode topic' b = .ok cursor) : topic = topic' := by
  have hta := (encode_eq_ok ha).2.2
  rw [(encode_eq_ok hb).2.2] at hta
  have h := congrArg rpartition hta
  rw [rpartition_append _ (colon_notMem (padded_isDigit _)),
    rpartition_append _ (colon_notMem (padded_isDigit _)), Prod.mk.injEq] at h
  exact String.toList_inj.mp h.1.symm

/-- Cursors are no sentinels. -/
theorem encode_ne_sentinel {topic sentinel : String} {offset : Int} {cursor : String}
    (h : encode topic offset = .ok cursor) (hs : ':' ∉ sentinel.toList) : cursor ≠ sentinel := by
  rintro rfl
  apply hs
  rw [(encode_eq_ok h).2.2]
  simp

/-- Texts without a colon are no cursors. -/
theorem ne_sentinel_of_offsetFor {topic cursor sentinel : String} {offset : Nat}
    (h : offsetFor topic cursor = .ok offset) (hs : ':' ∉ sentinel.toList) : cursor ≠ sentinel := by
  rintro rfl
  have hfst : (rpartition cursor.toList).1 = [] := by
    cases htext : cursor.toList with
    | nil => rfl
    | cons c rest =>
      rw [htext] at hs
      simp only [List.mem_cons, not_or] at hs
      simp [rpartition, hs.2, Ne.symm hs.1]
  simp only [offsetFor, split, hfst, decide_true, Bool.true_or, if_true, raiseA2A] at h
  cases h

/-- A cursor that decodes has a topic. -/
theorem topic_ne_of_split {cursor topic : String} {offset : Nat}
    (h : split cursor = .ok (topic, offset)) : topic ≠ "" := by
  simp only [split] at h
  split at h
  · cases h
  · rename_i hne
    split at h
    · simp only [Except.ok.injEq, Prod.mk.injEq] at h
      obtain ⟨rfl, -⟩ := h
      intro hempty
      apply hne
      have : (rpartition cursor.toList).1 = [] := by
        simpa [← String.toList_inj] using hempty
      simp [this]
    · cases h

/-- A cursor of a topic splits into that topic and its offset. -/
theorem split_of_offsetFor {topic cursor : String} {offset : Nat}
    (h : offsetFor topic cursor = .ok offset) : split cursor = .ok (topic, offset) := by
  simp only [offsetFor] at h
  cases hs : split cursor with
  | error e => simp [hs] at h
  | ok p =>
    obtain ⟨cursorTopic, n⟩ := p
    simp only [hs] at h
    split at h
    · cases h
    · rename_i heq
      cases h
      rw [not_not.mp heq]

theorem topic_ne_of_offsetFor {topic cursor : String} {offset : Nat}
    (h : offsetFor topic cursor = .ok offset) : topic ≠ "" :=
  topic_ne_of_split (split_of_offsetFor h)

/-- `int` raises nothing but `ValueError`. -/
theorem parseInt_error {raw : List Char} {e : PyError} (h : parseInt raw = .error e) :
    ∃ message, e = .valueError message := by
  simp only [parseInt] at h
  split at h
  · cases h
    exact ⟨_, rfl⟩
  · split at h
    · cases h
    · cases h
      exact ⟨_, rfl⟩

/-- What does not decode is refused as invalid, or passes for a number and is none. -/
theorem split_error {cursor : String} {e : PyError} (h : split cursor = .error e) :
    e.code? = some .invalidCursor ∨
      ((rpartition cursor.toList).1 ≠ [] ∧ isDigit (rpartition cursor.toList).2 = true ∧
        parseInt (rpartition cursor.toList).2 = .error e) := by
  simp only [split] at h
  split at h
  · cases h
    exact .inl rfl
  · rename_i hguard
    simp only [Bool.or_eq_true, decide_eq_true_eq, Bool.not_eq_true', not_or, Bool.not_eq_false] at hguard
    cases hp : parseInt (rpartition cursor.toList).2 with
    | ok n =>
      rw [hp] at h
      cases h
    | error e' =>
      rw [hp] at h
      cases h
      exact .inr ⟨hguard.1, hguard.2, rfl⟩

/-- What is no cursor of the topic is refused as invalid, or has too many digits. -/
theorem offsetFor_error {topic cursor : String} {e : PyError} (h : offsetFor topic cursor = .error e) :
    e.code? = some .invalidCursor ∨ ∃ message, e = .valueError message := by
  simp only [offsetFor] at h
  cases hs : split cursor with
  | ok p =>
    simp only [hs] at h
    split at h
    · cases h
      exact .inl rfl
    · cases h
  | error e' =>
    simp only [hs, Except.error.injEq] at h
    subst h
    rcases split_error hs with hcode | ⟨-, -, hparse⟩
    · exact .inl hcode
    · exact .inr (parseInt_error hparse)

private theorem decimalValue_le {c : Char} {d : Nat} (h : decimalValue c = some d) : d ≤ 9 := by
  obtain ⟨z, hz, rfl⟩ := Option.map_eq_some_iff.mp h
  have := List.find?_some hz
  simp only [decide_eq_true_eq] at this
  omega

private theorem digitsValue_lt {l : List Char} : ∀ {acc n : Nat},
    digitsValue acc l = some n → n < (acc + 1) * 10 ^ l.length := by
  induction l with
  | nil =>
    intro acc n h
    cases h
    simp
  | cons c rest ih =>
    intro acc n h
    rw [digitsValue] at h
    cases hd : decimalValue c with
    | none =>
      rw [hd] at h
      cases h
    | some d =>
      rw [hd] at h
      have hle := decimalValue_le hd
      calc n < (10 * acc + d + 1) * 10 ^ rest.length := ih h
        _ ≤ ((acc + 1) * 10) * 10 ^ rest.length := Nat.mul_le_mul_right _ (by omega)
        _ = (acc + 1) * 10 ^ (c :: rest).length := by rw [List.length_cons, Nat.pow_succ, Nat.mul_assoc, Nat.mul_comm 10]

/-- Offsets that were read can be printed. -/
theorem offsetFor_lt {topic cursor : String} {offset : Nat} (h : offsetFor topic cursor = .ok offset) :
    offset < 10 ^ maxStrDigits := by
  have hs := split_of_offsetFor h
  simp only [split] at hs
  split at hs
  · cases hs
  · cases hp : parseInt (rpartition cursor.toList).2 with
    | error e =>
      rw [hp] at hs
      cases hs
    | ok n =>
      rw [hp] at hs
      cases hs
      simp only [parseInt] at hp
      split at hp
      · cases hp
      · rename_i hlen
        split at hp
        · rename_i m hm
          cases hp
          refine Nat.lt_of_lt_of_le (digitsValue_lt hm) ?_
          rw [Nat.zero_add, Nat.one_mul]
          exact Nat.pow_le_pow_right (by decide) (Nat.not_lt.mp hlen)
        · cases hp

/-- Offsets that the interpreter prints can be encoded. -/
theorem exists_encode_of_digits (topic : String) {n : Nat} (h : n < 10 ^ maxStrDigits) :
    ∃ cursor, encode topic n = .ok cursor := by
  have hlen : (Nat.toDigits 10 n).length ≤ maxStrDigits :=
    (Nat.length_toDigits_le_iff (by decide) (by decide)).mpr h
  simp only [encode, Int.toNat_natCast]
  rw [if_neg (by omega), if_neg (by omega)]
  exact ⟨_, rfl⟩

/-- Offsets that fit the padded width can be encoded. -/
theorem exists_encode (topic : String) {n : Nat} (h : n < 10 ^ offsetWidth) :
    ∃ cursor, encode topic n = .ok cursor :=
  exists_encode_of_digits topic (Nat.lt_of_lt_of_le h (Nat.pow_le_pow_right (by decide) (by decide)))

/-- Encoded offsets are offsets that the interpreter prints. -/
theorem encode_lt {topic cursor : String} {offset : Int} (h : encode topic offset = .ok cursor) :
    offset.toNat < 10 ^ maxStrDigits := by
  have hlen := (encode_eq_ok h).2.1
  rwa [Nat.length_toDigits_le_iff (by decide) (by decide)] at hlen

/-! ## Order -/

/-- A text of digits spells a number below the power of its length. -/
private theorem ofDigitChars_lt {l : List Char} (h : ∀ c ∈ l, c.isDigit = true) :
    Nat.ofDigitChars 10 l 0 < 10 ^ l.length := by
  induction l with
  | nil => simp
  | cons c l ih =>
    have hrest := ih fun d hd => h d (by simp [hd])
    have hc := isDigit_bounds (h c (by simp))
    have hzero : '0'.toNat = 48 := rfl
    have hdigit : 10 * 0 + (c.toNat - '0'.toNat) ≤ 9 := by omega
    rw [Nat.ofDigitChars_cons, Nat.ofDigitChars_eq_ofDigitChars_zero]
    calc 10 ^ l.length * (10 * 0 + (c.toNat - '0'.toNat)) + Nat.ofDigitChars 10 l 0
        ≤ 10 ^ l.length * 9 + Nat.ofDigitChars 10 l 0 :=
          Nat.add_le_add_right (Nat.mul_le_mul_left _ hdigit) _
      _ < 10 ^ l.length * 9 + 10 ^ l.length := by omega
      _ = 10 ^ (c :: l).length := by rw [List.length_cons, pow_succ]; ring

/-- Comparing two numbers with the same weight of their leading digits. -/
private theorem weighted_lt_iff {w a b x y : Nat} (hx : x < w) (hy : y < w) :
    w * a + x < w * b + y ↔ a < b ∨ (a = b ∧ x < y) := by
  constructor
  · intro h
    rcases Nat.lt_trichotomy a b with hab | rfl | hab
    · exact .inl hab
    · exact .inr ⟨rfl, by omega⟩
    · have : w * (b + 1) ≤ w * a := Nat.mul_le_mul_left w hab
      rw [Nat.mul_add] at this
      omega
  · rintro (hab | ⟨rfl, hxy⟩)
    · have : w * (a + 1) ≤ w * b := Nat.mul_le_mul_left w hab
      rw [Nat.mul_add] at this
      omega
    · omega

/-- Texts of digits of one length are ordered like the numbers they spell. -/
private theorem digits_lt_iff {a b : List Char} (hlen : a.length = b.length)
    (ha : ∀ c ∈ a, c.isDigit = true) (hb : ∀ c ∈ b, c.isDigit = true) :
    a < b ↔ Nat.ofDigitChars 10 a 0 < Nat.ofDigitChars 10 b 0 := by
  induction a generalizing b with
  | nil =>
    obtain rfl : b = [] := List.length_eq_zero_iff.mp hlen.symm
    simp
  | cons c a ih =>
    cases b with
    | nil => simp at hlen
    | cons d b =>
      have hlen' : a.length = b.length := by simpa using hlen
      have ha' : ∀ y ∈ a, y.isDigit = true := fun y hy => ha y (by simp [hy])
      have hb' : ∀ y ∈ b, y.isDigit = true := fun y hy => hb y (by simp [hy])
      have hc := isDigit_bounds (ha c (by simp))
      have hd := isDigit_bounds (hb d (by simp))
      have hlt : c < d ↔ c.toNat < d.toNat := UInt32.lt_iff_toNat_lt
      have heq : c = d ↔ c.toNat = d.toNat := Char.toNat_inj.symm
      have hzero : '0'.toNat = 48 := rfl
      have hwa := ofDigitChars_lt ha'
      have hwb := ofDigitChars_lt hb'
      rw [hlen'] at hwa
      have hsplit : Nat.ofDigitChars 10 (c :: a) 0 < Nat.ofDigitChars 10 (d :: b) 0 ↔
          c.toNat - 48 < d.toNat - 48 ∨ (c.toNat - 48 = d.toNat - 48 ∧
            Nat.ofDigitChars 10 a 0 < Nat.ofDigitChars 10 b 0) := by
        rw [Nat.ofDigitChars_cons, Nat.ofDigitChars_cons, Nat.ofDigitChars_eq_ofDigitChars_zero,
          Nat.ofDigitChars_eq_ofDigitChars_zero (l := b), hlen', weighted_lt_iff hwa hwb, hzero,
          Nat.mul_zero, Nat.zero_add, Nat.zero_add]
      rw [List.cons_lt_cons_iff, ih hlen' ha' hb', hsplit, hlt, heq]
      omega

private theorem append_lt_append_iff (p : List Char) (a b : List Char) :
    p ++ a < p ++ b ↔ a < b := by
  induction p with
  | nil => rfl
  | cons c p ih => simp [ih]

/-- Within the padded width the cursors of a topic are ordered like their offsets. -/
theorem encode_lt_encode {topic : String} {a b : Nat} {ca cb : String}
    (ha : a < 10 ^ offsetWidth) (hb : b < 10 ^ offsetWidth)
    (hca : encode topic a = .ok ca) (hcb : encode topic b = .ok cb) : ca < cb ↔ a < b := by
  obtain ⟨-, -, hta⟩ := encode_eq_ok hca
  obtain ⟨-, -, htb⟩ := encode_eq_ok hcb
  simp only [Int.toNat_natCast] at hta htb
  have hlen : (padded a).length = (padded b).length := by
    rw [length_padded_of_lt ha, length_padded_of_lt hb]
  have hcolon : ∀ l, topic.toList ++ ':' :: l = (topic.toList ++ [':']) ++ l := by simp
  rw [String.lt_iff, hta, htb, hcolon (padded a), hcolon (padded b), append_lt_append_iff,
    digits_lt_iff hlen (padded_isDigit a) (padded_isDigit b), ofDigitChars_padded,
    ofDigitChars_padded]

/-- The first offset beyond the padded width sorts before the last one within it. -/
theorem encode_order_breaks (topic : String) :
    ∃ ca cb, encode topic (10 ^ 16 - 1 : Nat) = .ok ca ∧ encode topic (10 ^ 16 : Nat) = .ok cb ∧ cb < ca := by
  have hb : 10 ^ 16 < 10 ^ maxStrDigits := Nat.pow_lt_pow_right (by decide) (by decide)
  obtain ⟨ca, hca⟩ := exists_encode_of_digits topic (Nat.lt_of_le_of_lt (Nat.sub_le _ 1) hb)
  obtain ⟨cb, hcb⟩ := exists_encode_of_digits topic hb
  refine ⟨ca, cb, hca, hcb, ?_⟩
  have hdigits : padded (10 ^ 16) < padded (10 ^ 16 - 1) := by decide +kernel
  rw [String.lt_iff, (encode_eq_ok hca).2.2, (encode_eq_ok hcb).2.2, append_lt_append_iff, List.cons_lt_cons_iff]
  exact .inr ⟨rfl, hdigits⟩

end A2AEvents.Cursor
