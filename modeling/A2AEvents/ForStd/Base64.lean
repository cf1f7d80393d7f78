import Mathlib.Data.List.Basic

/-!
# Base64

The URL-safe alphabet of RFC 4648 and a decoder that behaves like a lenient
C decoder: characters outside the alphabet are skipped, a pad character ends the
text once the current group is complete, and an incomplete last group is an error.

## Key results

- `decode_encode`: a padded encoding decodes to the bytes it was made from
- `decode_strip_encode`: the padding can be dropped and recomputed from the length
-/

namespace Base64

/-- The character of a sextet. -/
def toChar (n : Nat) : Char :=
  if n < 26 then Char.ofNat (65 + n)
  else if n < 52 then Char.ofNat (97 + (n - 26))
  else if n < 62 then Char.ofNat (48 + (n - 52))
  else if n = 62 then '-' else '_'

/-- The sextet of a character of either alphabet. -/
def ofChar (c : Char) : Option Nat :=
  let n := c.toNat
  if 65 ≤ n ∧ n ≤ 90 then some (n - 65)
  else if 97 ≤ n ∧ n ≤ 122 then some (n - 97 + 26)
  else if 48 ≤ n ∧ n ≤ 57 then some (n - 48 + 52)
  else if c = '-' ∨ c = '+' then some 62
  else if c = '_' ∨ c = '/' then some 63
  else none

/-- Encode bytes three at a time, padding the last group with `=`. -/
def encode : List UInt8 → List Char
  | [] => []
  | [a] => [toChar (a.toNat / 4), toChar (a.toNat % 4 * 16), '=', '=']
  | [a, b] =>
    [toChar (a.toNat / 4), toChar (a.toNat % 4 * 16 + b.toNat / 16),
     toChar (b.toNat % 16 * 4), '=']
  | a :: b :: c :: rest =>
    toChar (a.toNat / 4) :: toChar (a.toNat % 4 * 16 + b.toNat / 16) ::
    toChar (b.toNat % 16 * 4 + c.toNat / 64) :: toChar (c.toNat % 64) :: encode rest

/-- The decoder between two characters: place in the group of four, the bits left
    over from the last character, and the pad characters just seen. -/
structure DecoderState where
  quad : Nat
  left : Nat
  pads : Nat

/-- Decode; `none` is the decoder's error on an incomplete last group. -/
def decodeFrom (st : DecoderState) : List Char → Option (List UInt8)
  | [] => if st.quad = 0 then some [] else none
  | ch :: rest =>
    if ch = '=' then
      if st.quad ≥ 2 then
        if st.quad + (st.pads + 1) ≥ 4 then some []
        else decodeFrom { st with pads := st.pads + 1 } rest
      else decodeFrom st rest
    else
      match ofChar ch with
      | none => decodeFrom st rest
      | some v =>
        match st.quad with
        | 0 => decodeFrom ⟨1, v, 0⟩ rest
        | 1 => (decodeFrom ⟨2, v % 16, 0⟩ rest).map (UInt8.ofNat (st.left * 4 + v / 16) :: ·)
        | 2 => (decodeFrom ⟨3, v % 4, 0⟩ rest).map (UInt8.ofNat (st.left * 16 + v / 4) :: ·)
        | _ => (decodeFrom ⟨0, 0, 0⟩ rest).map (UInt8.ofNat (st.left * 64 + v) :: ·)

/-- Decode a whole text. -/
def decode (text : List Char) : Option (List UInt8) := decodeFrom ⟨0, 0, 0⟩ text

/-- Drop the padding. -/
def strip (text : List Char) : List Char := (text.reverse.dropWhile (· = '=')).reverse

/-- The padding that a text of this length lacks. -/
def padding (length : Nat) : List Char := List.replicate ((4 - length % 4) % 4) '='

/-! ## Round trips -/

theorem ofChar_toChar {n : Nat} (h : n < 64) : ofChar (toChar n) = some n := by
  have key : ∀ m : Fin 64, ofChar (toChar m.val) = some m.val := by decide
  exact key ⟨n, h⟩

theorem toChar_ne_pad {n : Nat} (h : n < 64) : toChar n ≠ '=' := by
  have key : ∀ m : Fin 64, toChar m.val ≠ '=' := by decide
  exact key ⟨n, h⟩

/-- The characters of an encoding. -/
theorem mem_encode {bytes : List UInt8} {c : Char} (h : c ∈ encode bytes) : c = '=' ∨ ∃ n < 64, c = toChar n := by
  have sextet : ∀ {n : Nat}, n < 64 → toChar n = '=' ∨ ∃ m < 64, toChar n = toChar m :=
    fun hn => .inr ⟨_, hn, rfl⟩
  fun_induction encode bytes with
  | case1 => simp at h
  | case2 a =>
    have ha := a.toNat_lt
    simp only [List.mem_cons, List.not_mem_nil, or_false] at h
    obtain rfl | rfl | rfl | rfl := h
    · exact sextet (by omega)
    · exact sextet (by omega)
    · exact .inl rfl
    · exact .inl rfl
  | case3 a b =>
    have ha := a.toNat_lt
    have hb := b.toNat_lt
    simp only [List.mem_cons, List.not_mem_nil, or_false] at h
    obtain rfl | rfl | rfl | rfl := h
    · exact sextet (by omega)
    · exact sextet (by omega)
    · exact sextet (by omega)
    · exact .inl rfl
  | case4 a b c rest ih =>
    have ha := a.toNat_lt
    have hb := b.toNat_lt
    have hc := c.toNat_lt
    simp only [List.mem_cons] at h
    obtain rfl | rfl | rfl | rfl | h := h
    · exact sextet (by omega)
    · exact sextet (by omega)
    · exact sextet (by omega)
    · exact sextet (by omega)
    · exact ih h

theorem mem_of_mem_strip {text : List Char} {c : Char} (h : c ∈ strip text) : c ∈ text :=
  List.mem_reverse.mp ((List.dropWhile_sublist _).subset (List.mem_reverse.mp h))

private theorem decodeFrom_toChar {st : DecoderState} {n : Nat} (h : n < 64) (rest : List Char) :
    decodeFrom st (toChar n :: rest) =
      match st.quad with
      | 0 => decodeFrom ⟨1, n, 0⟩ rest
      | 1 => (decodeFrom ⟨2, n % 16, 0⟩ rest).map (UInt8.ofNat (st.left * 4 + n / 16) :: ·)
      | 2 => (decodeFrom ⟨3, n % 4, 0⟩ rest).map (UInt8.ofNat (st.left * 16 + n / 4) :: ·)
      | _ => (decodeFrom ⟨0, 0, 0⟩ rest).map (UInt8.ofNat (st.left * 64 + n) :: ·) := by
  rw [decodeFrom, if_neg (toChar_ne_pad h), ofChar_toChar h]

private theorem decodeFrom_pads (l : Nat) : decodeFrom ⟨2, l, 0⟩ ['=', '='] = some [] := by
  simp [decodeFrom]

private theorem decodeFrom_pad (l : Nat) : decodeFrom ⟨3, l, 0⟩ ['='] = some [] := by
  simp [decodeFrom]

private theorem ofNat_of_eq {n : Nat} {a : UInt8} (h : n = a.toNat) : UInt8.ofNat n = a := by
  rw [h, UInt8.ofNat_toNat]

/-- A padded encoding decodes to the bytes it was made from. -/
theorem decode_encode (bytes : List UInt8) : decode (encode bytes) = some bytes := by
  fun_induction encode bytes with
  | case1 => rfl
  | case2 a =>
    have ha := a.toNat_lt
    simp only [decode, decodeFrom_toChar (show a.toNat / 4 < 64 by omega),
      decodeFrom_toChar (show a.toNat % 4 * 16 < 64 by omega), decodeFrom_pads]
    have h0 : UInt8.ofNat (a.toNat / 4 * 4 + a.toNat % 4 * 16 / 16) = a := ofNat_of_eq (by omega)
    rw [h0]
    rfl
  | case3 a b =>
    have ha := a.toNat_lt
    have hb := b.toNat_lt
    simp only [decode, decodeFrom_toChar (show a.toNat / 4 < 64 by omega),
      decodeFrom_toChar (show a.toNat % 4 * 16 + b.toNat / 16 < 64 by omega),
      decodeFrom_toChar (show b.toNat % 16 * 4 < 64 by omega), decodeFrom_pad]
    have h0 : UInt8.ofNat (a.toNat / 4 * 4 + (a.toNat % 4 * 16 + b.toNat / 16) / 16) = a :=
      ofNat_of_eq (by omega)
    have h1 : UInt8.ofNat ((a.toNat % 4 * 16 + b.toNat / 16) % 16 * 16 + b.toNat % 16 * 4 / 4) = b :=
      ofNat_of_eq (by omega)
    rw [h0, h1]
    rfl
  | case4 a b c rest ih =>
    have ha := a.toNat_lt
    have hb := b.toNat_lt
    have hc := c.toNat_lt
    simp only [decode, decodeFrom_toChar (show a.toNat / 4 < 64 by omega),
      decodeFrom_toChar (show a.toNat % 4 * 16 + b.toNat / 16 < 64 by omega),
      decodeFrom_toChar (show b.toNat % 16 * 4 + c.toNat / 64 < 64 by omega),
      decodeFrom_toChar (show c.toNat % 64 < 64 by omega)]
    have h0 : UInt8.ofNat (a.toNat / 4 * 4 + (a.toNat % 4 * 16 + b.toNat / 16) / 16) = a :=
      ofNat_of_eq (by omega)
    have h1 : UInt8.ofNat ((a.toNat % 4 * 16 + b.toNat / 16) % 16 * 16 +
        (b.toNat % 16 * 4 + c.toNat / 64) / 4) = b := ofNat_of_eq (by omega)
    have h2 : UInt8.ofNat ((b.toNat % 16 * 4 + c.toNat / 64) % 4 * 64 + c.toNat % 64) = c :=
      ofNat_of_eq (by omega)
    rw [h0, h1, h2]
    simp only [decode] at ih
    rw [ih]
    rfl

theorem strip_append_pad (text : List Char) : strip (text ++ ['=']) = strip text := by
  simp [strip]

theorem strip_append_of_ne (text : List Char) {c : Char} (h : c ≠ '=') :
    strip (text ++ [c]) = text ++ [c] := by
  simp [strip, h]

/-- Dropping the padding of an encoding loses nothing that its length does not tell. -/
private theorem strip_encode (bytes : List UInt8) :
    strip (encode bytes) ++ padding (strip (encode bytes)).length = encode bytes := by
  -- Only the last group is padded, so the groups before it are kept as they are.
  suffices key : ∀ pre : List Char, pre.length % 4 = 0 → strip pre = pre →
      strip (pre ++ encode bytes) ++ padding (strip (pre ++ encode bytes)).length =
        pre ++ encode bytes by
    simpa using key [] rfl rfl
  fun_induction encode bytes with
  | case1 =>
    intro pre hlen hpre
    simp [hpre, padding, hlen]
  | case2 a =>
    intro pre hlen _
    have ha := a.toNat_lt
    have hne : toChar (a.toNat % 4 * 16) ≠ '=' := toChar_ne_pad (by omega)
    have hs : strip (pre ++ [toChar (a.toNat / 4), toChar (a.toNat % 4 * 16), '=', '=']) =
        pre ++ [toChar (a.toNat / 4), toChar (a.toNat % 4 * 16)] := by
      have h1 := strip_append_pad (pre ++ [toChar (a.toNat / 4), toChar (a.toNat % 4 * 16), '='])
      have h2 := strip_append_pad (pre ++ [toChar (a.toNat / 4), toChar (a.toNat % 4 * 16)])
      have h3 := strip_append_of_ne (pre ++ [toChar (a.toNat / 4)]) hne
      simp only [List.append_assoc, List.cons_append, List.nil_append] at h1 h2 h3
      rw [h1, h2, h3]
    rw [hs]
    have hl : (pre ++ [toChar (a.toNat / 4), toChar (a.toNat % 4 * 16)]).length % 4 = 2 := by
      simp only [List.length_append, List.length_cons, List.length_nil]; omega
    rw [padding, hl]
    simp
  | case3 a b =>
    intro pre hlen _
    have hb := b.toNat_lt
    have hne : toChar (b.toNat % 16 * 4) ≠ '=' := toChar_ne_pad (by omega)
    have hs : strip (pre ++ [toChar (a.toNat / 4), toChar (a.toNat % 4 * 16 + b.toNat / 16),
        toChar (b.toNat % 16 * 4), '=']) =
        pre ++ [toChar (a.toNat / 4), toChar (a.toNat % 4 * 16 + b.toNat / 16),
          toChar (b.toNat % 16 * 4)] := by
      have h1 := strip_append_pad (pre ++ [toChar (a.toNat / 4),
        toChar (a.toNat % 4 * 16 + b.toNat / 16), toChar (b.toNat % 16 * 4)])
      have h2 := strip_append_of_ne (pre ++ [toChar (a.toNat / 4),
        toChar (a.toNat % 4 * 16 + b.toNat / 16)]) hne
      simp only [List.append_assoc, List.cons_append, List.nil_append] at h1 h2
      rw [h1, h2]
    rw [hs]
    have hl : (pre ++ [toChar (a.toNat / 4), toChar (a.toNat % 4 * 16 + b.toNat / 16),
        toChar (b.toNat % 16 * 4)]).length % 4 = 3 := by
      simp only [List.length_append, List.length_cons, List.length_nil]; omega
    rw [padding, hl]
    simp
  | case4 a b c rest ih =>
    intro pre hlen _
    have hc := c.toNat_lt
    have hne : toChar (c.toNat % 64) ≠ '=' := toChar_ne_pad (by omega)
    have h := ih (pre ++ [toChar (a.toNat / 4), toChar (a.toNat % 4 * 16 + b.toNat / 16),
        toChar (b.toNat % 16 * 4 + c.toNat / 64), toChar (c.toNat % 64)])
      (by simp only [List.length_append, List.length_cons, List.length_nil]; omega)
      (by
        have h1 := strip_append_of_ne (pre ++ [toChar (a.toNat / 4),
          toChar (a.toNat % 4 * 16 + b.toNat / 16), toChar (b.toNat % 16 * 4 + c.toNat / 64)]) hne
        simpa using h1)
    simpa using h

/-- The padding can be dropped and recomputed from the length. -/
theorem decode_strip_encode (bytes : List UInt8) :
    decode (strip (encode bytes) ++ padding (strip (encode bytes)).length) = some bytes := by
  rw [strip_encode, decode_encode]

end Base64
