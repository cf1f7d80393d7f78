import Mathlib.Data.Nat.Factorization.Basic
import A2AEvents.Spec.NumbersCorrect
import A2AEvents.Spec.SigningInput

/-!
# Integers and floats

RFC 8785 knows one type of numbers, the doubles. An integer of at most fifteen digits and the float
nearest to it are the same number there, and the float has the digits of the integer. They have one
canonical text as long as the layout of the float is plain: an integer is always written in full,
whereas the float goes over to exponents at `10 ^ 21`.

## Key results

- `roundToDouble_inj`: fifteen decimal digits survive the rounding to a double
- `PyFloat.IsNearest.exact`: the float nearest to an integer has the digits of the integer
- `canonicalize_int_float`: the two have one encoding exactly below `10 ^ 21`
-/

namespace A2AEvents

/-! ## Rounding -/

/-- The number has at most `k` significant decimal digits. -/
def Significant (k n : Nat) : Prop := ∃ a e, n = a * 10 ^ e ∧ a < 10 ^ k

/-- What is rounded to a multiple of `unit` moves by half of it at most. -/
private theorem round_bounds {n unit : Nat} (hunit : 2 ^ 52 * unit ≤ n) (hpos : 0 < unit) :
    let q := n / unit
    let r := n % unit
    let v := if 2 * r > unit ∨ (2 * r = unit ∧ q % 2 = 1) then (q + 1) * unit else q * unit
    2 ^ 53 * v ≤ (2 ^ 53 + 1) * n ∧ (2 ^ 53 - 1) * n ≤ 2 ^ 53 * v := by
  intro q r v
  have hn : q * unit + r = n := Nat.div_add_mod' n unit
  have hr : r < unit := Nat.mod_lt n hpos
  have hnext : (q + 1) * unit = q * unit + unit := Nat.succ_mul q unit
  by_cases hup : 2 * r > unit ∨ (2 * r = unit ∧ q % 2 = 1)
  · have hv : v = q * unit + unit := (if_pos hup).trans hnext
    omega
  · have hv : v = q * unit := if_neg hup
    omega

/-- The relative error of a double is `2 ^ -53` at most. -/
theorem roundToDouble_bounds (n : Nat) :
    2 ^ 53 * roundToDouble n ≤ (2 ^ 53 + 1) * n ∧ (2 ^ 53 - 1) * n ≤ 2 ^ 53 * roundToDouble n := by
  by_cases hn : n < 2 ^ 53
  · rw [roundToDouble, if_pos hn]
    omega
  · have hunit : 2 ^ 52 * 2 ^ (n.log2 - 52) ≤ n := by
      have hlog : 53 ≤ n.log2 := (Nat.le_log2 (by omega)).mpr (Nat.not_lt.mp hn)
      rw [← Nat.pow_add, Nat.add_sub_cancel' (by omega)]
      exact Nat.log2_self_le (by omega)
    rw [roundToDouble, if_neg hn]
    exact round_bounds hunit (Nat.two_pow_pos _)

/-- Multiples of a unit are apart by the unit. -/
private theorem multiples_gap {k unit a b : Nat} (hlt : a * unit < b * unit) (hle : b * unit ≤ 10 ^ k * unit) :
    b * unit ≤ 10 ^ k * (b * unit - a * unit) := by
  have hab : 1 ≤ b - a := Nat.sub_pos_of_lt (Nat.lt_of_mul_lt_mul_right hlt)
  calc b * unit ≤ 10 ^ k * unit := hle
    _ ≤ 10 ^ k * ((b - a) * unit) := Nat.mul_le_mul_left _ (Nat.le_mul_of_pos_left _ hab)
    _ = 10 ^ k * (b * unit - a * unit) := by rw [Nat.sub_mul]

/-- Two numbers of at most `k` digits are apart by the `k`-th decimal part of the larger one. -/
theorem Significant.gap {k x y : Nat} (hx : Significant k x) (hy : Significant k y) (hlt : x < y) :
    y ≤ 10 ^ k * (y - x) := by
  obtain ⟨a, e, rfl, ha⟩ := hx
  obtain ⟨b, f, rfl, hb⟩ := hy
  by_cases hfe : f ≤ e
  · have hx : a * 10 ^ e = a * 10 ^ (e - f) * 10 ^ f := by rw [Nat.mul_assoc, ← Nat.pow_add, Nat.sub_add_cancel hfe]
    rw [hx] at hlt ⊢
    exact multiples_gap hlt (Nat.mul_le_mul_right _ hb.le)
  · have hy : b * 10 ^ f = b * 10 ^ (f - e) * 10 ^ e := by
      rw [Nat.mul_assoc, ← Nat.pow_add, Nat.sub_add_cancel (by omega)]
    rw [hy] at hlt ⊢
    generalize b * 10 ^ (f - e) = b' at hlt ⊢
    by_cases hsmall : b' * 10 ^ e ≤ 10 ^ k * 10 ^ e
    · exact multiples_gap hlt hsmall
    · -- the larger number has more places than the smaller one has digits
      have hle : 10 ^ k * (a * 10 ^ e) ≤ (10 ^ k - 1) * (b' * 10 ^ e) :=
        calc 10 ^ k * (a * 10 ^ e) = a * (10 ^ k * 10 ^ e) := by ring
          _ ≤ (10 ^ k - 1) * (10 ^ k * 10 ^ e) := Nat.mul_le_mul_right _ (Nat.le_sub_one_of_lt ha)
          _ ≤ (10 ^ k - 1) * (b' * 10 ^ e) := Nat.mul_le_mul_left _ (Nat.not_le.mp hsmall).le
      have hpos : 0 < 10 ^ k := Nat.pow_pos (by decide)
      rw [Nat.sub_mul, Nat.one_mul] at hle
      rw [Nat.mul_sub]
      have hself : b' * 10 ^ e ≤ 10 ^ k * (b' * 10 ^ e) := Nat.le_mul_of_pos_left _ hpos
      omega

/-- Fifteen decimal digits survive the rounding to a double. -/
theorem roundToDouble_inj {x y : Nat} (hx : Significant 15 x) (hy : Significant 15 y)
    (h : roundToDouble x = roundToDouble y) : x = y := by
  have hle : ∀ {x y : Nat}, Significant 15 x → Significant 15 y → roundToDouble x = roundToDouble y → y ≤ x := by
    intro x y hx hy h
    by_contra hlt
    have hgap := hx.gap hy (Nat.not_le.mp hlt)
    have hxle := (roundToDouble_bounds x).1
    have hyle := (roundToDouble_bounds y).2
    rw [h] at hxle
    omega
  exact Nat.le_antisymm (hle hy hx h.symm) (hle hx hy h)

/-! ## The float nearest to an integer -/

/-- The double nearest to an integer. -/
def nearestDouble (m : Int) : Int := if m < 0 then -(roundToDouble m.natAbs) else roundToDouble m.natAbs

/-- How many digits it takes to tell the float from the others. -/
def PyFloat.precision : PyFloat → Nat
  | .finite d => (decimalText d.digits).length
  | _ => 0

/-- The float is the double nearest to the integer, which is no infinity, and has the fewest digits that
    are read as this double. -/
structure PyFloat.IsNearest (f : PyFloat) (m : Int) : Prop where
  value : f.toInt? = some (nearestDouble m)
  finite : roundToDouble m.natAbs < 2 ^ 1024
  shortest : ∀ g : PyFloat, g.toInt? = some (nearestDouble m) → f.precision ≤ g.precision

/-- The magnitude of a decimal that is a whole number. -/
def Decimal.magnitude (d : Decimal) : Nat := d.digits * 10 ^ d.exponent.toNat

/-- The decimal is the integer. -/
structure Decimal.Spells (d : Decimal) (m : Int) : Prop where
  whole : 0 ≤ d.exponent
  sign : d.negative = decide (m < 0)
  magnitude : d.magnitude = m.natAbs

theorem roundToDouble_pos {n : Nat} (hn : 0 < n) : 0 < roundToDouble n := by
  have := (roundToDouble_bounds n).2
  omega

theorem Decimal.magnitude_pos (d : Decimal) : 0 < d.magnitude :=
  Nat.mul_pos d.digits_pos (Nat.pow_pos (by decide))

/-- The integer that a decimal with whole digits is equal to. -/
theorem toInt?_finite {d : Decimal} (h : 0 ≤ d.exponent) : (PyFloat.finite d).toInt? =
    some (if d.negative then -(roundToDouble d.magnitude : Int) else roundToDouble d.magnitude) := by
  simp only [PyFloat.toInt?]
  rw [if_neg (Int.not_lt.mpr h)]
  rfl

theorem Decimal.Spells.value {d : Decimal} {m : Int} (h : d.Spells m) :
    (PyFloat.finite d).toInt? = some (nearestDouble m) := by
  rw [toInt?_finite h.whole, h.magnitude, h.sign, nearestDouble]
  simp only [decide_eq_true_eq]

/-- A float that is equal to the double nearest to an integer has the sign of the integer, and a magnitude that
    is rounded alike. -/
theorem finite_of_value {f : PyFloat} {m : Int} (hm : m ≠ 0) (h : f.toInt? = some (nearestDouble m)) :
    ∃ d, f = .finite d ∧ 0 ≤ d.exponent ∧ d.negative = decide (m < 0) ∧
      roundToDouble d.magnitude = roundToDouble m.natAbs := by
  have hpos := roundToDouble_pos (Int.natAbs_pos.mpr hm)
  unfold nearestDouble at h
  cases f with
  | nan | inf _ => cases h
  | zero _ =>
    simp only [PyFloat.toInt?, Option.some.injEq] at h
    split at h <;> omega
  | finite d =>
    by_cases hwhole : 0 ≤ d.exponent
    · have hmagnitude := roundToDouble_pos d.magnitude_pos
      rw [toInt?_finite hwhole, Option.some.injEq] at h
      refine ⟨d, rfl, hwhole, ?_⟩
      cases hsign : d.negative <;> simp only [hsign, Bool.false_eq_true, if_true, if_false] at h <;> split at h
      · omega
      · rename_i hneg
        exact ⟨(decide_eq_false hneg).symm, by omega⟩
      · rename_i hneg
        exact ⟨(decide_eq_true hneg).symm, by omega⟩
      · omega
    · simp only [PyFloat.toInt?] at h
      rw [if_pos (Int.not_le.mp hwhole)] at h
      cases h

/-- Every integer but zero is spelled by a decimal, which has no more digits than are significant. -/
theorem exists_spells {k : Nat} {m : Int} (hm : m ≠ 0) (hdigits : Significant k m.natAbs) :
    ∃ d : Decimal, d.Spells m ∧ d.digits < 10 ^ k := by
  obtain ⟨a, e, hae, ha⟩ := hdigits
  have hapos : a ≠ 0 := by
    rintro rfl
    rw [Nat.zero_mul] at hae
    exact hm (Int.natAbs_eq_zero.mp hae)
  obtain ⟨z, b, hb, rfl⟩ := Nat.exists_eq_pow_mul_and_not_dvd hapos 10 (by decide)
  refine ⟨⟨decide (m < 0), b, (e + z : Nat), fun h => hb (Nat.dvd_of_mod_eq_zero h)⟩, ⟨Int.natCast_nonneg _, rfl, ?_⟩, ?_⟩
  · show b * 10 ^ (e + z) = m.natAbs
    rw [hae, Nat.pow_add]
    ring
  · exact Nat.lt_of_le_of_lt (Nat.le_mul_of_pos_left b (Nat.pow_pos (by decide))) ha

/-- Whole decimals of one sign and magnitude are equal. -/
theorem Decimal.eq_of_magnitude {d d' : Decimal} (hd : 0 ≤ d.exponent) (hd' : 0 ≤ d'.exponent)
    (hsign : d.negative = d'.negative) (h : d.magnitude = d'.magnitude) : d = d' := by
  apply Decimal.value_inj
  have hvalue : ∀ d : Decimal, 0 ≤ d.exponent → (d.digits : ℚ) * 10 ^ d.exponent = d.magnitude := by
    intro d hd
    obtain ⟨e, he⟩ := Int.eq_ofNat_of_zero_le hd
    rw [Decimal.magnitude, he, Int.toNat_natCast, zpow_natCast]
    push_cast
    rfl
  rw [Decimal.value, Decimal.value, mul_assoc, mul_assoc, hvalue d hd, hvalue d' hd', hsign, h]

theorem Decimal.significant {d : Decimal} {k : Nat} (h : d.digits < 10 ^ k) : Significant k d.magnitude :=
  ⟨d.digits, d.exponent.toNat, rfl, h⟩

theorem length_decimalText_le_iff {n k : Nat} (hk : 0 < k) : (decimalText n).length ≤ k ↔ n < 10 ^ k :=
  Nat.length_toDigits_le_iff (by decide) hk

theorem precision_le_iff {d : Decimal} {k : Nat} (hk : 0 < k) :
    (PyFloat.finite d).precision ≤ k ↔ d.digits < 10 ^ k :=
  length_decimalText_le_iff hk

/-- Among the decimals of at most fifteen digits, one only is read as the double. -/
theorem Decimal.Spells.unique {d d' : Decimal} {m : Int} (hm : m ≠ 0) (hd : d.Spells m) (hdigits : d.digits < 10 ^ 15)
    (h : (PyFloat.finite d').toInt? = some (nearestDouble m)) (hdigits' : d'.digits < 10 ^ 15) : d' = d := by
  obtain ⟨d'', heq, hwhole, hsign, hround⟩ := finite_of_value hm h
  cases heq
  rw [← hd.magnitude] at hround
  exact Decimal.eq_of_magnitude hwhole hd.whole (hsign.trans hd.sign.symm)
    (roundToDouble_inj (Decimal.significant hdigits') (Decimal.significant hdigits) hround)

/-- Integers below `10 ^ 308` are not rounded to infinity. -/
theorem roundToDouble_lt {n : Nat} (hn : n < 10 ^ 308) : roundToDouble n < 2 ^ 1024 := by
  have hle := (roundToDouble_bounds n).1
  have hlimit : (2 ^ 53 + 1) * 10 ^ 308 ≤ 2 ^ 53 * 2 ^ 1024 := by decide +kernel
  have hlt : 2 ^ 53 * roundToDouble n < 2 ^ 53 * 2 ^ 1024 :=
    calc 2 ^ 53 * roundToDouble n ≤ (2 ^ 53 + 1) * n := hle
      _ < (2 ^ 53 + 1) * 10 ^ 308 := Nat.mul_lt_mul_of_pos_left hn (Nat.succ_pos _)
      _ ≤ 2 ^ 53 * 2 ^ 1024 := hlimit
  exact Nat.lt_of_mul_lt_mul_left hlt

/-- The float nearest to an integer of at most fifteen digits has the digits of the integer. -/
theorem Decimal.Spells.isNearest {d : Decimal} {m : Int} (hm : m ≠ 0) (hd : d.Spells m) (hdigits : d.digits < 10 ^ 15)
    (hlt : m.natAbs < 10 ^ 308) : (PyFloat.finite d).IsNearest m := by
  refine ⟨hd.value, roundToDouble_lt hlt, fun g hg => ?_⟩
  obtain ⟨d', rfl, -⟩ := finite_of_value hm hg
  by_cases hdigits' : d'.digits < 10 ^ 15
  · rw [hd.unique hm hdigits hg hdigits']
  · have hlong := mt (precision_le_iff (by decide)).mp hdigits'
    have hshort := (precision_le_iff (d := d) (by decide)).mpr hdigits
    omega

namespace PyFloat.IsNearest

variable {f : PyFloat} {m : Int}

theorem eq_zero (h : f.IsNearest 0) : ∃ negative, f = .zero negative := by
  have hshort := h.shortest (.zero false) rfl
  cases f with
  | nan | inf _ => cases h.value
  | zero negative => exact ⟨negative, rfl⟩
  | finite d =>
    have hlen : 0 < (decimalText d.digits).length := List.length_pos_of_ne_nil d.digits_ne_nil
    exact absurd hshort (Nat.not_le.mpr hlen)

/-- The digits of the float nearest to an integer are the significant digits of the integer. -/
theorem exact (h : f.IsNearest m) (hm : m ≠ 0) (hdigits : Significant 15 m.natAbs) :
    ∃ d : Decimal, f = .finite d ∧ d.Spells m := by
  obtain ⟨d, hd, hlt⟩ := exists_spells hm hdigits
  obtain ⟨d', rfl, -⟩ := finite_of_value hm h.value
  have hshort := Nat.le_trans (h.shortest _ hd.value) ((precision_le_iff (by decide)).mpr hlt)
  rw [hd.unique hm hlt h.value ((precision_le_iff (by decide)).mp hshort)]
  exact ⟨d, rfl, hd⟩

end PyFloat.IsNearest

theorem exists_isNearest {m : Int} (hdigits : Significant 15 m.natAbs) (hlt : m.natAbs < 10 ^ 308) :
    ∃ f : PyFloat, f.IsNearest m := by
  by_cases hm : m = 0
  · subst hm
    exact ⟨.zero false, rfl, roundToDouble_lt hlt, fun _ _ => Nat.zero_le _⟩
  · obtain ⟨d, hd, hsmall⟩ := exists_spells hm hdigits
    exact ⟨.finite d, hd.isNearest hm hsmall hlt⟩

/-! ## The two texts -/

/-- Powers of ten put zeros behind the digits. -/
theorem decimalText_mul_pow {n : Nat} (hn : 0 < n) (e : Nat) :
    decimalText (n * 10 ^ e) = decimalText n ++ List.replicate e '0' := by
  induction e with
  | zero => rw [Nat.pow_zero, Nat.mul_one, List.replicate_zero, List.append_nil]
  | succ e ih =>
    have hpos : 0 < n * 10 ^ e := Nat.mul_pos hn (Nat.pow_pos (by decide))
    have hnext : n * 10 ^ (e + 1) = 10 * (n * 10 ^ e) := by ring
    rw [hnext, List.replicate_succ', ← List.append_assoc, ← ih, decimalText, decimalText,
      Nat.toDigits_of_base_le (by decide) (by omega), Nat.mul_div_cancel_left _ (by decide), Nat.mul_mod_right]
    rfl

/-- The position of the point of a whole decimal is the length of its integer. -/
theorem Decimal.Spells.position {d : Decimal} {m : Int} (h : d.Spells m) :
    d.position = (decimalText m.natAbs).length := by
  have hwhole := h.whole
  have hposition : d.position = d.exponent + (decimalText d.digits).length := rfl
  rw [← h.magnitude, Decimal.magnitude, decimalText_mul_pow d.digits_pos, List.length_append, List.length_replicate]
  push_cast
  omega

/-- The text of an integer that the interpreter prints. -/
theorem intText_eq {m : Int} (hlt : m.natAbs < 10 ^ 308) :
    intText m = .ok (Numeral.text ⟨decide (m < 0), decimalText m.natAbs, [], none⟩) := by
  have hlen : (decimalText m.natAbs).length ≤ 308 := (length_decimalText_le_iff (by decide)).mpr hlt
  simp only [intText]
  rw [if_neg (by omega)]
  by_cases hneg : m < 0 <;> simp [Numeral.text, Numeral.fractionText, Numeral.exponentText, hneg]

/-- An integer and its decimal have one text exactly if the layout of the decimal is plain. -/
theorem Decimal.Spells.text_eq_iff {d : Decimal} {m : Int} (h : d.Spells m) (hlt : m.natAbs < 10 ^ 308) :
    intText m = esNumber (.finite d) ↔ m.natAbs < 10 ^ 21 := by
  have hposition := h.position
  have hwhole := h.whole
  rw [← length_decimalText_le_iff (by decide), intText_eq hlt, esNumber, Except.ok.injEq]
  constructor
  · intro htext
    -- the text of the integer has no exponent
    have hplain : PlainNotation (esDecimal d) := by
      refine ⟨_, ⟨fun c hc => Nat.isDigit_of_mem_toDigits (by decide) (by decide) hc, fun c hc => (by cases hc),
        Nat.toDigits_ne_nil, fun hzero => ?_⟩, rfl, htext.symm⟩
      exact absurd hzero (Numeral.head_toDigits (h.magnitude ▸ d.magnitude_pos))
    have hreach := (plain_esDecimal d).mp hplain
    simp only [Decimal.InReach] at hreach
    omega
  · intro hlen
    have hfilled : (decimalText d.digits).length ≤ d.position ∧ d.position ≤ 21 := by
      simp only [Decimal.position] at hposition ⊢
      omega
    rw [esDecimal_eq_text, Decimal.numeral]
    simp only [if_pos hfilled, h.sign]
    congr 2
    rw [← h.magnitude, Decimal.magnitude, decimalText_mul_pow d.digits_pos]
    simp only [Decimal.position, Int.add_sub_cancel]

/-- Encodings are equal exactly if the texts are. -/
theorem canonicalize_eq_iff_canon {a b : Json} : canonicalize a = canonicalize b ↔ canon a = canon b := by
  have hinj : ∀ s t : List Char, encodeUtf8 (String.ofList s) = encodeUtf8 (String.ofList t) → s = t :=
    fun s t h => String.ofList_injective (encodeUtf8_inj h)
  unfold canonicalize
  cases canon a with
  | error e => cases canon b <;> simp [Except.map]
  | ok s =>
    cases canon b with
    | error e => simp [Except.map]
    | ok t =>
      simp only [Except.map, Except.ok.injEq]
      exact ⟨hinj s t, fun h => h ▸ rfl⟩

/-- An integer of at most fifteen digits and the float nearest to it have one canonical encoding exactly if the
    integer is below `10 ^ 21`. -/
theorem canonicalize_int_float {m : Int} (hdigits : Significant 15 m.natAbs) (hlt : m.natAbs < 10 ^ 308) :
    (∃ f : PyFloat, f.IsNearest m) ∧ ∀ f : PyFloat, f.IsNearest m →
      (canonicalize (.int m) = canonicalize (.float f) ↔ m.natAbs < 10 ^ 21) := by
  refine ⟨exists_isNearest hdigits hlt, fun f hf => ?_⟩
  by_cases hm : m = 0
  · subst hm
    obtain ⟨negative, rfl⟩ := hf.eq_zero
    exact iff_of_true rfl (by decide)
  · obtain ⟨d, rfl, hd⟩ := hf.exact hm hdigits
    rw [← hd.text_eq_iff hlt, canonicalize_eq_iff_canon]
    rfl

private theorem lt_pow_of_lt {n k l : Nat} (hkl : k ≤ l) (h : n < 10 ^ k) : n < 10 ^ l :=
  Nat.lt_of_lt_of_le h (Nat.pow_le_pow_right (by decide) hkl)

/-- An integer with few digits, and some zeros behind them. -/
theorem canonicalize_int_float_sample : (∃ f : PyFloat, f.IsNearest (-1500)) ∧ ∀ f : PyFloat, f.IsNearest (-1500) →
    (canonicalize (.int (-1500)) = canonicalize (.float f) ↔ Int.natAbs (-1500) < 10 ^ 21) := by
  have hlt : Int.natAbs (-1500) < 10 ^ 308 := lt_pow_of_lt (k := 4) (by decide) (by decide)
  exact canonicalize_int_float ⟨15, 2, rfl, by decide⟩ hlt

/-- The first integer that the float writes with an exponent. -/
theorem integer_written_in_full :
    ∃ f : PyFloat, f.IsNearest (10 ^ 21) ∧
      canonicalize (.int (10 ^ 21)) = .ok (encodeUtf8 "1000000000000000000000") ∧
      canonicalize (.float f) = .ok (encodeUtf8 "1e+21") ∧
      canonicalize (.int (10 ^ 21)) ≠ canonicalize (.float f) := by
  have hspells : (⟨false, 1, 21, by decide⟩ : Decimal).Spells (10 ^ 21) := ⟨by decide, rfl, by decide⟩
  have hlt : Int.natAbs (10 ^ 21) < 10 ^ 308 := lt_pow_of_lt (k := 22) (by decide) (by decide)
  have hint : canonicalize (.int (10 ^ 21)) = .ok (encodeUtf8 "1000000000000000000000") := by rfl
  have hfloat : canonicalize (.float (.finite ⟨false, 1, 21, by decide⟩)) = .ok (encodeUtf8 "1e+21") := by rfl
  refine ⟨_, hspells.isNearest (by decide) (by decide) hlt, hint, hfloat, fun h => ?_⟩
  rw [hint, hfloat] at h
  exact absurd (encodeUtf8_inj (Except.ok.inj h)) (by decide)

end A2AEvents
