import Mathlib.Algebra.Order.Field.Power
import Mathlib.Tactic.Linarith
import Mathlib.Tactic.Positivity
import A2AEvents.ForStd.Numeral
import A2AEvents.Native.Signing

/-!
# Numbers are laid out as what they are

The canonical text of a float is laid out from its shortest digits and their exponent, in one of
four ways. Each of them is the text of a decimal numeral with the value of the float. The numeral
is written without an exponent as long as the decimal point is within reach of the digits, and
with one leading digit and an exponent beyond.

## Key results

- `esDecimal_eq_text`: the layout is the text of a numeral
- `value_numeral`: the numeral has the value of the digits and their exponent
- `esNumber_layout`: the layout denotes its number exactly, in one of two notations, and determines it
-/

namespace A2AEvents

/-- The number that the digits and their exponent stand for. -/
def Decimal.value (d : Decimal) : ℚ := (if d.negative then -1 else 1) * (d.digits : ℚ) * 10 ^ d.exponent

/-- The position of the decimal point, counted from the first digit. -/
abbrev Decimal.position (d : Decimal) : Int := d.exponent + (decimalText d.digits).length

/-- The decimal point is within reach of the digits. -/
def Decimal.InReach (d : Decimal) : Prop := -6 < d.position ∧ d.position ≤ 21

/-- `ddd.ddd`, or without a fraction. -/
def PlainNotation (text : List Char) : Prop := ∃ n : Numeral, n.Wf ∧ n.exponent = none ∧ text = n.text

/-- `d.ddde+x` or `d.ddde-x`, or without a fraction. -/
def ScientificNotation (text : List Char) : Prop :=
  ∃ n : Numeral, n.Wf ∧ n.whole.length = 1 ∧ n.exponent.isSome = true ∧ text = n.text

/-- The numeral as which a decimal is written. -/
def Decimal.numeral (d : Decimal) : Numeral :=
  let digits := decimalText d.digits
  let k : Int := digits.length
  let n := d.position
  if k ≤ n ∧ n ≤ 21 then ⟨d.negative, digits ++ List.replicate (n - k).toNat '0', [], none⟩
  else if 0 < n ∧ n ≤ 21 then ⟨d.negative, digits.take n.toNat, digits.drop n.toNat, none⟩
  else if -6 < n ∧ n ≤ 0 then ⟨d.negative, ['0'], List.replicate (-n).toNat '0' ++ digits, none⟩
  else ⟨d.negative, digits.take 1, digits.drop 1, some (n - 1)⟩

namespace Decimal

variable (d : Decimal)

theorem digits_pos : 0 < d.digits := by
  have := d.trailing
  omega

theorem isDigit_of_mem {c : Char} (h : c ∈ decimalText d.digits) : c.isDigit = true :=
  Nat.isDigit_of_mem_toDigits (by decide) (by decide) h

theorem digits_ne_nil : decimalText d.digits ≠ [] := Nat.toDigits_ne_nil

end Decimal

/-! ## The four layouts -/

/-- The layout is the text of a numeral. -/
theorem esDecimal_eq_text (d : Decimal) : esDecimal d = d.numeral.text := by
  have hsign : ∀ body : List Char, (if d.negative then '-' :: body else body) =
      (if d.negative then ['-'] else []) ++ body := by
    intro body
    split <;> rfl
  unfold esDecimal
  rw [hsign]
  simp only [Decimal.numeral]
  by_cases hfilled : (decimalText d.digits).length ≤ d.position ∧ d.position ≤ 21
  · -- the digits are filled up with zeros
    simp only [if_pos hfilled, Numeral.text, Numeral.fractionText, Numeral.exponentText, List.append_nil]
  by_cases hbetween : 0 < d.position ∧ d.position ≤ 21
  · -- the point stands between two digits
    have hdrop : (decimalText d.digits).drop d.position.toNat ≠ [] := by
      rw [ne_eq, List.drop_eq_nil_iff]
      omega
    simp only [if_neg hfilled, if_pos hbetween, Numeral.text, Numeral.fractionText_of_ne_nil hdrop,
      Numeral.exponentText, List.append_nil]
  by_cases hbehind : -6 < d.position ∧ d.position ≤ 0
  · -- the digits follow the point, some zeros ahead of them
    have hfraction : List.replicate (-d.position).toNat '0' ++ decimalText d.digits ≠ [] :=
      List.append_ne_nil_of_right_ne_nil _ d.digits_ne_nil
    simp only [if_neg hfilled, if_neg hbetween, if_pos hbehind, Numeral.text, Numeral.fractionText_of_ne_nil hfraction,
      Numeral.exponentText, List.append_nil]
    rfl
  · -- one digit, and the others behind the point
    simp only [if_neg hfilled, if_neg hbetween, if_neg hbehind, Numeral.text, Decimal.position]
    congr 1
    generalize d.exponent + ((decimalText d.digits).length : Int) - 1 = x
    cases decimalText d.digits with
    | nil => rfl
    | cons c rest => cases rest <;> rfl

/-- A part of the digits in front begins like the digits. -/
private theorem head_take {d : Decimal} {k : Nat} (hk : 0 < k) : ((decimalText d.digits).take k).head? ≠ some '0' := by
  rw [List.head?_take, if_neg hk.ne']
  exact Numeral.head_toDigits d.digits_pos

/-- The numeral is well-formed. -/
theorem wf_numeral (d : Decimal) : d.numeral.Wf := by
  have hdigits : ∀ c ∈ decimalText d.digits, c.isDigit = true := fun c hc => d.isDigit_of_mem hc
  have hzeros : ∀ n : Nat, ∀ c ∈ List.replicate n '0', c.isDigit = true := by
    intro n c hc
    rw [List.eq_of_mem_replicate hc]
    rfl
  have htaken : ∀ k : Nat, 0 < k → (decimalText d.digits).take k ≠ [] := by
    intro k hk hnil
    rcases List.take_eq_nil_iff.mp hnil with hzero | hnone
    · omega
    · exact d.digits_ne_nil hnone
  simp only [Decimal.numeral]
  by_cases hfilled : (decimalText d.digits).length ≤ d.position ∧ d.position ≤ 21
  · rw [if_pos hfilled]
    refine ⟨List.forall_mem_append.mpr ⟨hdigits, hzeros _⟩, fun c hc => (by cases hc),
      List.append_ne_nil_of_left_ne_nil d.digits_ne_nil _, fun h => ?_⟩
    rw [List.head?_append_of_ne_nil _ d.digits_ne_nil] at h
    exact absurd h (Numeral.head_toDigits d.digits_pos)
  rw [if_neg hfilled]
  by_cases hbetween : 0 < d.position ∧ d.position ≤ 21
  · rw [if_pos hbetween]
    have hpos : 0 < d.position.toNat := by omega
    exact ⟨fun c hc => hdigits c (List.mem_of_mem_take hc), fun c hc => hdigits c (List.mem_of_mem_drop hc),
      htaken _ hpos, fun h => absurd h (head_take hpos)⟩
  rw [if_neg hbetween]
  by_cases hbehind : -6 < d.position ∧ d.position ≤ 0
  · rw [if_pos hbehind]
    exact ⟨hzeros 1, List.forall_mem_append.mpr ⟨hzeros _, hdigits⟩, List.cons_ne_nil _ _, fun _ => rfl⟩
  · rw [if_neg hbehind]
    exact ⟨fun c hc => hdigits c (List.mem_of_mem_take hc), fun c hc => hdigits c (List.mem_of_mem_drop hc),
      htaken 1 Nat.one_pos, fun h => absurd h (head_take Nat.one_pos)⟩

/-- A numeral has the value of the decimal if its digits are those of the decimal and some zeros. -/
private theorem value_eq {n : Numeral} {d : Decimal} (hsign : n.negative = d.negative) (zeros : Nat)
    (hdigits : Nat.ofDigitChars 10 (n.whole ++ n.fraction) 0 = d.digits * 10 ^ zeros)
    (hexponent : n.exponent.getD 0 - n.fraction.length + zeros = d.exponent) : n.value = d.value := by
  rw [Numeral.value, Decimal.value, hsign, hdigits, ← hexponent, zpow_add₀ (by norm_num), zpow_natCast]
  push_cast
  ring

/-- The numeral has the value of the digits and their exponent. -/
theorem value_numeral (d : Decimal) : d.numeral.value = d.value := by
  have hspelled : Nat.ofDigitChars 10 (decimalText d.digits) 0 = d.digits := Nat.ofDigitChars_ten_toDigits
  have hlen : 0 < (decimalText d.digits).length := List.length_pos_of_ne_nil d.digits_ne_nil
  have hposition : d.position = d.exponent + (decimalText d.digits).length := rfl
  simp only [Decimal.numeral]
  by_cases hfilled : (decimalText d.digits).length ≤ d.position ∧ d.position ≤ 21
  · rw [if_pos hfilled]
    apply value_eq rfl (d.position - (decimalText d.digits).length).toNat
    · rw [List.append_nil, Nat.ofDigitChars_append, hspelled, Nat.ofDigitChars_replicate_zero, Nat.mul_comm]
    · simp only [Option.getD_none, List.length_nil]
      omega
  rw [if_neg hfilled]
  by_cases hbetween : 0 < d.position ∧ d.position ≤ 21
  · rw [if_pos hbetween]
    apply value_eq rfl 0
    · rw [List.take_append_drop, hspelled, Nat.pow_zero, Nat.mul_one]
    · simp only [Option.getD_none, List.length_drop]
      omega
  rw [if_neg hbetween]
  by_cases hbehind : -6 < d.position ∧ d.position ≤ 0
  · rw [if_pos hbehind]
    apply value_eq rfl 0
    · have hzero : ['0'] = List.replicate 1 '0' := rfl
      rw [hzero, Nat.ofDigitChars_append, Nat.ofDigitChars_append, Nat.ofDigitChars_replicate_zero,
        Nat.ofDigitChars_replicate_zero, Nat.mul_zero, hspelled, Nat.pow_zero, Nat.mul_one]
    · simp only [Option.getD_none, List.length_append, List.length_replicate]
      omega
  · rw [if_neg hbehind]
    apply value_eq rfl 0
    · rw [List.take_append_drop, hspelled, Nat.pow_zero, Nat.mul_one]
    · simp only [Option.getD_some, List.length_drop]
      omega

/-- Different decimals have different values. -/
theorem Decimal.value_inj {d d' : Decimal} (h : d.value = d'.value) : d = d' := by
  have hpos : ∀ d : Decimal, 0 < (d.digits : ℚ) * 10 ^ d.exponent := by
    intro d
    have hdigits : (0 : ℚ) < d.digits := by exact_mod_cast d.digits_pos
    positivity
  have hd := hpos d
  have hd' := hpos d'
  -- the sign shows in the value, and without it the values still agree
  have hparts : d.negative = d'.negative ∧ (d.digits : ℚ) * 10 ^ d.exponent = d'.digits * 10 ^ d'.exponent := by
    rw [Decimal.value, Decimal.value, mul_assoc, mul_assoc] at h
    cases hsign : d.negative <;> cases hsign' : d'.negative <;>
      simp only [hsign, hsign', Bool.false_eq_true, if_true, if_false, one_mul, neg_mul, neg_inj] at h
    · exact ⟨rfl, h⟩
    · linarith
    · linarith
    · exact ⟨rfl, h⟩
  obtain ⟨hsign, hvalue⟩ := hparts
  obtain ⟨hdigits, hexponent⟩ := Numeral.mul_zpow_inj d.trailing d'.trailing hvalue
  cases d
  cases d'
  simp only [Decimal.mk.injEq]
  exact ⟨hsign, hdigits, hexponent⟩

/-! ## Notations -/

/-- The numeral has no exponent as long as the point is within reach, -/
theorem exponent_numeral (d : Decimal) : d.numeral.exponent = none ↔ d.InReach := by
  simp only [Decimal.numeral, Decimal.InReach]
  split
  · exact iff_of_true rfl ⟨by omega, by omega⟩
  · split
    · exact iff_of_true rfl ⟨by omega, by omega⟩
    · split
      · exact iff_of_true rfl ⟨by omega, by omega⟩
      · exact iff_of_false (fun h => (by cases h)) (by omega)

/-- and one digit in front otherwise. -/
theorem length_whole {d : Decimal} (h : ¬ d.InReach) : d.numeral.whole.length = 1 := by
  have hlen : 0 < (decimalText d.digits).length := List.length_pos_of_ne_nil d.digits_ne_nil
  simp only [Decimal.InReach] at h
  simp only [Decimal.numeral]
  rw [if_neg (by omega), if_neg (by omega), if_neg (by omega), List.length_take]
  omega

theorem plain_esDecimal (d : Decimal) : PlainNotation (esDecimal d) ↔ d.InReach := by
  rw [← exponent_numeral]
  constructor
  · rintro ⟨n, hn, hexponent, htext⟩
    rw [esDecimal_eq_text] at htext
    rw [Numeral.text_inj (wf_numeral d) hn htext]
    exact hexponent
  · intro h
    exact ⟨d.numeral, wf_numeral d, h, esDecimal_eq_text d⟩

theorem scientific_esDecimal (d : Decimal) : ScientificNotation (esDecimal d) ↔ ¬ d.InReach := by
  rw [← exponent_numeral]
  constructor
  · rintro ⟨n, hn, -, hexponent, htext⟩ hnone
    rw [esDecimal_eq_text] at htext
    rw [← Numeral.text_inj (wf_numeral d) hn htext, hnone] at hexponent
    cases hexponent
  · intro h
    exact ⟨d.numeral, wf_numeral d, length_whole (mt (exponent_numeral d).mpr h), Option.isSome_iff_ne_none.mpr h,
      esDecimal_eq_text d⟩

/-- The layout of a float denotes its digits and exponent exactly, has one of two notations according to
    the position of the point, and determines the digits and the exponent. -/
theorem esNumber_layout (d : Decimal) :
    ∃ text, esNumber (.finite d) = .ok text ∧ Numeral.denotes text = some d.value ∧ (PlainNotation text ↔ d.InReach) ∧
      (ScientificNotation text ↔ ¬ d.InReach) ∧ ∀ d', esNumber (.finite d') = .ok text → d' = d := by
  have hdenotes : ∀ d : Decimal, Numeral.denotes (esDecimal d) = some d.value := by
    intro d
    rw [esDecimal_eq_text, Numeral.denotes_text (wf_numeral d), value_numeral]
  refine ⟨esDecimal d, rfl, hdenotes d, plain_esDecimal d, scientific_esDecimal d, fun d' h => ?_⟩
  have htext : esDecimal d' = esDecimal d := Except.ok.inj h
  have hvalues := hdenotes d'
  rw [htext, hdenotes d] at hvalues
  exact Decimal.value_inj (Option.some.inj hvalues).symm

end A2AEvents
