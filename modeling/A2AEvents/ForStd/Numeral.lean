import Mathlib.Algebra.Order.Field.Basic
import Mathlib.Algebra.Order.Ring.Unbundled.Rat
import Mathlib.Tactic.FieldSimp
import Mathlib.Tactic.Ring

/-!
# Decimal numerals

The numbers of JSON as texts: a sign, a whole part without a leading zero, a fraction and
an exponent. Reading a numeral gives back its parts, so that its text determines what it denotes.

## Key results

- `read_text`: well-formed numerals are read as they were written
- `text_inj`: different numerals have different texts
- `mul_zpow_inj`: digits that do not end in zero and their exponent are determined by the value
-/

/-- The parts of a decimal numeral. -/
structure Numeral where
  negative : Bool
  whole : List Char
  fraction : List Char
  exponent : Option Int
  deriving DecidableEq

namespace Numeral

/-- The fraction, after its point. -/
def fractionText : List Char → List Char
  | [] => []
  | digits => '.' :: digits

/-- The exponent, with its sign. -/
def exponentText : Option Int → List Char
  | none => []
  | some x => 'e' :: (if x ≥ 0 then '+' else '-') :: Nat.toDigits 10 x.natAbs

def text (n : Numeral) : List Char :=
  (if n.negative then ['-'] else []) ++ (n.whole ++ (fractionText n.fraction ++ exponentText n.exponent))

/-- The number that a numeral stands for. -/
def value (n : Numeral) : ℚ :=
  (if n.negative then -1 else 1) * (Nat.ofDigitChars 10 (n.whole ++ n.fraction) 0 : ℚ) *
    10 ^ (n.exponent.getD 0 - n.fraction.length)

/-- The parts are digits, the whole part has some and no needless zero in front. -/
structure Wf (n : Numeral) : Prop where
  whole : ∀ c ∈ n.whole, c.isDigit = true
  fraction : ∀ c ∈ n.fraction, c.isDigit = true
  nonempty : n.whole ≠ []
  leading : n.whole.head? = some '0' → n.whole = ['0']

/-! ## Reading -/

/-- The whole part, and what follows it. -/
def readWhole (text : List Char) : Option (List Char × List Char) :=
  let digits := text.takeWhile Char.isDigit
  if digits = [] ∨ (digits.head? = some '0' ∧ digits ≠ ['0']) then none
  else some (digits, text.dropWhile Char.isDigit)

/-- The fraction, if there is one, and what follows it. -/
def readFraction : List Char → Option (List Char × List Char)
  | '.' :: rest =>
    let digits := rest.takeWhile Char.isDigit
    if digits = [] then none else some (digits, rest.dropWhile Char.isDigit)
  | text => some ([], text)

/-- A text of digits only. -/
def readDigits (text : List Char) : Option Nat :=
  if text ≠ [] ∧ text.all Char.isDigit then some (Nat.ofDigitChars 10 text 0) else none

/-- The exponent, if there is one, up to the end of the text. -/
def readExponent : List Char → Option (Option Int)
  | [] => some none
  | e :: rest =>
    if e = 'e' ∨ e = 'E' then
      match rest with
      | '+' :: digits => (readDigits digits).map fun n : Nat => some (n : Int)
      | '-' :: digits => (readDigits digits).map fun n : Nat => some (-(n : Int))
      | digits => (readDigits digits).map fun n : Nat => some (n : Int)
    else none

/-- Read a text that is a numeral as a whole. -/
def read (text : List Char) : Option Numeral := do
  let negative := text.head? = some '-'
  let (whole, rest) ← readWhole (if negative then text.tail else text)
  let (fraction, rest) ← readFraction rest
  let exponent ← readExponent rest
  pure { negative, whole, fraction, exponent }

/-- The number that a text denotes, if it is a numeral. -/
def denotes (text : List Char) : Option ℚ := (read text).map value

/-! ## What was written is read -/

theorem fractionText_of_ne_nil {digits : List Char} (h : digits ≠ []) : fractionText digits = '.' :: digits := by
  cases digits with
  | nil => exact absurd rfl h
  | cons d digits => rfl

/-- No digit begins the text. -/
def Ends (rest : List Char) : Prop := ∀ c ∈ rest.head?, c.isDigit = false

/-- The digits of a text end where no digit follows. -/
private theorem span_digits {l rest : List Char} (hl : ∀ c ∈ l, c.isDigit = true) (hrest : Ends rest) :
    (l ++ rest).takeWhile Char.isDigit = l ∧ (l ++ rest).dropWhile Char.isDigit = rest := by
  rw [List.takeWhile_append_of_pos hl, List.dropWhile_append_of_pos hl]
  cases rest with
  | nil => simp
  | cons c rest =>
    have hc : c.isDigit = false := hrest c rfl
    simp [hc]

theorem ends_exponentText (exponent : Option Int) : Ends (exponentText exponent) := by
  cases exponent with
  | none => exact fun c hc => (by cases hc)
  | some x =>
    intro c hc
    cases hc
    rfl

theorem ends_fractionText (digits : List Char) (exponent : Option Int) :
    Ends (fractionText digits ++ exponentText exponent) := by
  cases digits with
  | nil => exact ends_exponentText exponent
  | cons d digits =>
    intro c hc
    cases hc
    rfl

theorem readDigits_eq {digits : List Char} (hne : digits ≠ []) (h : ∀ c ∈ digits, c.isDigit = true) :
    readDigits digits = some (Nat.ofDigitChars 10 digits 0) := by
  rw [readDigits, if_pos ⟨hne, List.all_eq_true.mpr h⟩]

/-- The digits of a number are read as the number. -/
theorem readDigits_toDigits (n : Nat) : readDigits (Nat.toDigits 10 n) = some n := by
  rw [readDigits_eq Nat.toDigits_ne_nil fun c hc => Nat.isDigit_of_mem_toDigits (by decide) (by decide) hc,
    Nat.ofDigitChars_ten_toDigits]

theorem readWhole_append {digits rest : List Char} (h : ∀ c ∈ digits, c.isDigit = true) (hne : digits ≠ [])
    (hlead : digits.head? = some '0' → digits = ['0']) (hrest : Ends rest) :
    readWhole (digits ++ rest) = some (digits, rest) := by
  obtain ⟨htake, hdrop⟩ := span_digits h hrest
  have hguard : ¬(digits = [] ∨ (digits.head? = some '0' ∧ digits ≠ ['0'])) := by
    rintro (hnil | ⟨hzero, hlong⟩)
    · exact hne hnil
    · exact hlong (hlead hzero)
  rw [readWhole, htake, hdrop, if_neg hguard]

theorem readFraction_append {digits : List Char} (h : ∀ c ∈ digits, c.isDigit = true) (exponent : Option Int) :
    readFraction (fractionText digits ++ exponentText exponent) = some (digits, exponentText exponent) := by
  cases digits with
  | nil => cases exponent <;> rfl
  | cons d digits =>
    obtain ⟨htake, hdrop⟩ := span_digits h (ends_exponentText exponent)
    rw [fractionText_of_ne_nil (List.cons_ne_nil d digits), List.cons_append, readFraction, htake, hdrop, if_neg (List.cons_ne_nil d digits)]

theorem readExponent_text (exponent : Option Int) : readExponent (exponentText exponent) = some exponent := by
  cases exponent with
  | none => rfl
  | some x =>
    simp only [exponentText, readExponent, true_or, if_true]
    by_cases hx : x ≥ 0
    · simp only [if_pos hx, readDigits_toDigits, Option.map_some]
      rw [show ((x.natAbs : Nat) : Int) = x by omega]
    · simp only [if_neg hx, readDigits_toDigits, Option.map_some]
      rw [show -((x.natAbs : Nat) : Int) = x by omega]

/-- Well-formed numerals are read as they were written. -/
theorem read_text {n : Numeral} (hn : n.Wf) : read n.text = some n := by
  have hwhole := readWhole_append hn.whole hn.nonempty hn.leading (ends_fractionText n.fraction n.exponent)
  have hparts : (n.text.head? = some '-' ↔ n.negative = true) ∧
      (if n.negative then n.text.tail else n.text) =
        n.whole ++ (fractionText n.fraction ++ exponentText n.exponent) := by
    cases hneg : n.negative with
    | true => simp [text, hneg]
    | false =>
      -- a digit is no sign
      obtain ⟨c, rest, hcons⟩ := List.exists_cons_of_ne_nil hn.nonempty
      have hc : c ≠ '-' := by
        rintro rfl
        have hdigit := hn.whole '-' (by rw [hcons]; exact List.mem_cons_self)
        cases hdigit
      simp [text, hneg, hcons, hc]
  obtain ⟨hsign, hunsigned⟩ := hparts
  simp [read, hsign, hunsigned, hwhole, readFraction_append hn.fraction, readExponent_text]

/-- Different numerals have different texts. -/
theorem text_inj {n m : Numeral} (hn : n.Wf) (hm : m.Wf) (h : n.text = m.text) : n = m := by
  have hread := read_text hn
  rw [h, read_text hm] at hread
  cases hread
  rfl

theorem denotes_text {n : Numeral} (hn : n.Wf) : denotes n.text = some n.value := by
  rw [denotes, read_text hn, Option.map_some]

/-- No zero begins the digits of a positive number. -/
theorem head_toDigits {n : Nat} (hn : 0 < n) : (Nat.toDigits 10 n).head? ≠ some '0' := by
  induction n using Nat.strong_induction_on with
  | _ n ih =>
    rw [Nat.toDigits_eq_if (by decide)]
    split
    · intro hzero
      exact hn.ne' (Nat.digitChar_eq_zero.mp (Option.some.inj hzero))
    · rename_i hge
      have hne : Nat.toDigits 10 (n / 10) ≠ [] := Nat.toDigits_ne_nil
      rw [List.head?_append_of_ne_nil _ hne]
      exact ih (n / 10) (by omega) (by omega)

/-! ## Values -/

/-- Digits that do not end in zero and their exponent are determined by the value. -/
theorem mul_zpow_inj {a b : Nat} {e f : Int} (ha : a % 10 ≠ 0) (hb : b % 10 ≠ 0)
    (h : (a : ℚ) * 10 ^ e = b * 10 ^ f) : a = b ∧ e = f := by
  have hbelow : ∀ {a b : Nat} {e f : Int}, a % 10 ≠ 0 → (a : ℚ) * 10 ^ e = b * 10 ^ f → f ≤ e := by
    intro a b e f ha h
    by_contra hlt
    -- a smaller exponent leaves a zero at the end of the digits
    obtain ⟨k, hk⟩ := Int.eq_ofNat_of_zero_le (show 0 ≤ f - e - 1 by omega)
    have hf : f = e + ((k + 1 : Nat) : Int) := by omega
    rw [hf, zpow_add₀ (by norm_num), zpow_natCast] at h
    have hpos : (10 : ℚ) ^ e ≠ 0 := zpow_ne_zero e (by norm_num)
    have hnat : (a : ℚ) = ((b * 10 ^ (k + 1) : Nat) : ℚ) := by
      push_cast
      apply mul_right_cancel₀ hpos
      rw [h]
      ring
    have : a = b * 10 ^ (k + 1) := by exact_mod_cast hnat
    apply ha
    rw [this, Nat.pow_succ, ← Nat.mul_assoc, Nat.mul_mod_left]
  have hef : e = f := le_antisymm (hbelow hb h.symm) (hbelow ha h)
  subst hef
  have hpos : (10 : ℚ) ^ e ≠ 0 := zpow_ne_zero e (by norm_num)
  exact ⟨by exact_mod_cast mul_right_cancel₀ hpos h, rfl⟩

end Numeral
