import Mathlib.Algebra.Order.Ring.Defs
import Mathlib.Data.List.Induction
import Mathlib.Tactic.Linarith

/-!
# Token buckets

A bucket holds `capacity` tokens at most and is refilled at a constant rate. An arrival that finds a
whole token is accepted and takes it, any other is turned away. The number of tokens is the smallest
of what the arrivals so far allow: capacity and refill since an arrival, less what was taken since.

## Key results

- `TokenBucket.level_lt_iff`: the level as the minimum over all past arrivals
- `TokenBucket.Fair.turned_away_iff`: what turns an arrival away
- `TokenBucket.Fair.window`: what an interval of time lets pass
-/

namespace TokenBucket

/-- Something that asked for a token. -/
structure Arrival (α : Type) where
  time : α
  accepted : Bool

/-- The number of tokens taken by these arrivals. -/
def taken {α : Type} (log : List (Arrival α)) : Nat := log.countP Arrival.accepted

theorem taken_concat {α : Type} (log : List (Arrival α)) (a : Arrival α) :
    taken (log ++ [a]) = taken log + if a.accepted then 1 else 0 := by
  simp [taken, List.countP_append, List.countP_singleton]

/-- The number of tokens taken in an interval of time. -/
def takenWithin {α : Type} [LinearOrder α] (start stop : α) (log : List (Arrival α)) : Nat :=
  log.countP fun a => a.accepted && (decide (start ≤ a.time) && decide (a.time ≤ stop))

/-- What was taken in an interval was taken since its first arrival. -/
theorem exists_taken_since {α : Type} [LinearOrder α] (log : List (Arrival α)) (start stop : α) :
    ∃ j ≤ log.length, (∀ b, log[j]? = some b → start ≤ b.time) ∧
      takenWithin start stop log ≤ taken (log.drop j) := by
  let j := log.findIdx fun b => decide (start ≤ b.time)
  refine ⟨j, List.findIdx_le_length, fun b hb => ?_, ?_⟩
  · obtain ⟨hj, rfl⟩ := List.getElem?_eq_some_iff.mp hb
    exact of_decide_eq_true (List.findIdx_getElem (w := hj))
  · -- no arrival before `j` counts
    have hearly : takenWithin start stop (log.take j) = 0 := by
      rw [takenWithin, List.countP_eq_zero]
      intro b hb
      obtain ⟨i, hi, rfl⟩ := List.getElem_of_mem hb
      rw [List.length_take] at hi
      have hno := List.not_of_lt_findIdx (Nat.lt_of_lt_of_le hi (Nat.min_le_left _ _))
      rw [List.getElem_take]
      simp [hno]
    have hsplit : takenWithin start stop (log.take j ++ log.drop j) =
        takenWithin start stop (log.take j) + takenWithin start stop (log.drop j) := List.countP_append
    rw [List.take_append_drop, hearly, Nat.zero_add] at hsplit
    rw [hsplit]
    apply List.countP_mono_left
    intro b _ hb
    exact (Bool.and_eq_true_iff.mp hb).1

section

variable {α : Type} [CommRing α] [LinearOrder α]

/-- The tokens in a bucket that was last touched as `bucket` says; an untouched one is full. -/
def refill (rate capacity : α) (bucket : Option (α × α)) (now : α) : α :=
  match bucket with
  | none => capacity
  | some (tokens, last) => min capacity (tokens + (now - last) * rate)

/-- The bucket after an arrival. -/
def touch (rate capacity : α) (bucket : Option (α × α)) (a : Arrival α) : Option (α × α) :=
  some (refill rate capacity bucket a.time - (if a.accepted then 1 else 0), a.time)

/-- The bucket after some arrivals. -/
def bucketAfter (rate capacity : α) (log : List (Arrival α)) : Option (α × α) :=
  log.foldl (touch rate capacity) none

/-- The tokens there are at a time after these arrivals. -/
def level (rate capacity : α) (log : List (Arrival α)) (now : α) : α :=
  refill rate capacity (bucketAfter rate capacity log) now

/-- Whoever finds a token is accepted, and nobody else. -/
def Fair (rate capacity : α) (log : List (Arrival α)) : Prop :=
  ∀ i a, log[i]? = some a → (a.accepted = true ↔ 1 ≤ level rate capacity (log.take i) a.time)

variable {rate capacity : α} {log : List (Arrival α)} {a : Arrival α}

theorem bucketAfter_concat (rate capacity : α) (log : List (Arrival α)) (a : Arrival α) :
    bucketAfter rate capacity (log ++ [a]) = touch rate capacity (bucketAfter rate capacity log) a := by
  simp [bucketAfter]

theorem fair_nil (rate capacity : α) : Fair rate capacity [] := by
  intro i a h
  simp at h

theorem fair_concat :
    Fair rate capacity (log ++ [a]) ↔
      Fair rate capacity log ∧ (a.accepted = true ↔ 1 ≤ level rate capacity log a.time) := by
  constructor
  · intro h
    refine ⟨fun i b hb => ?_, ?_⟩
    · have hi : i < log.length := (List.getElem?_eq_some_iff.mp hb).1
      have hfair := h i b (by rw [List.getElem?_append_left hi, hb])
      rw [List.take_append_of_le_length (Nat.le_of_lt hi)] at hfair
      exact hfair
    · have hfair := h log.length a (by simp)
      rw [List.take_left] at hfair
      exact hfair
  · rintro ⟨hlog, ha⟩ i b hb
    by_cases hi : i < log.length
    · rw [List.getElem?_append_left hi] at hb
      rw [List.take_append_of_le_length (Nat.le_of_lt hi)]
      exact hlog i b hb
    · have hlast : i = log.length := by
        have hlt := (List.getElem?_eq_some_iff.mp hb).1
        rw [List.length_append, List.length_singleton] at hlt
        omega
      subst hlast
      rw [List.getElem?_concat_length] at hb
      cases hb
      rw [List.take_left]
      exact ha

variable [IsStrictOrderedRing α]

/-- The level is below `x` if it was never filled up to `x`, or if since some arrival more was taken
    than capacity and refill are worth. -/
theorem level_lt_iff (rate capacity : α) (log : List (Arrival α)) (now x : α) :
    level rate capacity log now < x ↔
      capacity < x ∨ ∃ j b, log[j]? = some b ∧ capacity + rate * (now - b.time) < x + taken (log.drop j) := by
  -- the level after an arrival is that before it, less what it took: induction on the last arrival
  induction log using List.reverseRecOn generalizing now x with
  | nil => simp [level, bucketAfter, refill]
  | append_singleton log a ih =>
    let took : α := if a.accepted then 1 else 0
    have hlevel : level rate capacity (log ++ [a]) now =
        min capacity (level rate capacity log a.time - took + (now - a.time) * rate) := by
      rw [level, bucketAfter_concat]
      rfl
    have hdrop : ∀ j ≤ log.length, ((taken ((log ++ [a]).drop j) : Nat) : α) = taken (log.drop j) + took := by
      intro j hj
      rw [List.drop_append_of_le_length hj, taken_concat, Nat.cast_add, Nat.cast_ite, Nat.cast_one, Nat.cast_zero]
    have hbefore : level rate capacity log a.time - took + (now - a.time) * rate < x ↔
        level rate capacity log a.time < x + took - (now - a.time) * rate := by
      constructor <;> intro h <;> linarith
    rw [hlevel, min_lt_iff, hbefore, ih]
    apply or_congr_right
    constructor
    · rintro (h | ⟨j, b, hb, h⟩)
      · -- nothing but the last arrival counts
        refine ⟨log.length, a, by simp, ?_⟩
        rw [hdrop _ (Nat.le_refl _), List.drop_length]
        simp only [taken, List.countP_nil, Nat.cast_zero]
        linarith
      · have hj := (List.getElem?_eq_some_iff.mp hb).1
        refine ⟨j, b, by rw [List.getElem?_append_left hj, hb], ?_⟩
        rw [hdrop j (Nat.le_of_lt hj)]
        linarith
    · rintro ⟨j, b, hb, h⟩
      by_cases hj : j < log.length
      · right
        rw [List.getElem?_append_left hj] at hb
        rw [hdrop j (Nat.le_of_lt hj)] at h
        exact ⟨j, b, hb, by linarith⟩
      · left
        have hlast : j = log.length := by
          have hlt := (List.getElem?_eq_some_iff.mp hb).1
          rw [List.length_append, List.length_singleton] at hlt
          omega
        subst hlast
        rw [List.getElem?_concat_length] at hb
        cases hb
        rw [hdrop _ (Nat.le_refl _), List.drop_length] at h
        simp only [taken, List.countP_nil, Nat.cast_zero] at h
        linarith

namespace Fair

/-- An arrival is turned away exactly if, since it or an earlier one, capacity and refill are not
    worth what was taken and one more. -/
theorem turned_away_iff (h : Fair rate capacity log) {i : Nat} (ha : log[i]? = some a) :
    a.accepted = false ↔
      ∃ j b, j ≤ i ∧ log[j]? = some b ∧
        capacity + rate * (a.time - b.time) < (taken ((log.drop j).take (i - j)) : Nat) + 1 := by
  have hi := (List.getElem?_eq_some_iff.mp ha).1
  rw [← Bool.not_eq_true, h i a ha, not_le, level_lt_iff]
  constructor
  · rintro (hfull | ⟨j, b, hb, hlt⟩)
    · refine ⟨i, a, Nat.le_refl i, ha, ?_⟩
      rw [Nat.sub_self, List.take_zero, sub_self, mul_zero]
      simpa [taken] using hfull
    · have hj : j < i := by
        have hlen := (List.getElem?_eq_some_iff.mp hb).1
        rw [List.length_take] at hlen
        omega
      rw [List.getElem?_take_of_lt hj] at hb
      rw [List.drop_take] at hlt
      exact ⟨j, b, Nat.le_of_lt hj, hb, by linarith⟩
  · rintro ⟨j, b, hji, hb, hlt⟩
    rcases Nat.lt_or_eq_of_le hji with hj | rfl
    · right
      rw [← List.drop_take] at hlt
      exact ⟨j, b, by rw [List.getElem?_take_of_lt hj, hb], by linarith⟩
    · left
      rw [ha] at hb
      cases hb
      rw [Nat.sub_self, List.take_zero, sub_self, mul_zero] at hlt
      simpa [taken] using hlt

/-- An interval of time lets no more pass than capacity and its refill are worth. -/
theorem window (h : Fair rate capacity log) (hrate : 0 ≤ rate) (hcapacity : 0 ≤ capacity) {start stop : α}
    (hle : start ≤ stop) : (takenWithin start stop log : Nat) ≤ capacity + rate * (stop - start) := by
  induction log using List.reverseRecOn with
  | nil =>
    rw [takenWithin, List.countP_nil, Nat.cast_zero]
    exact add_nonneg hcapacity (mul_nonneg hrate (sub_nonneg.mpr hle))
  | append_singleton log a ih =>
    rw [takenWithin, List.countP_append, List.countP_singleton]
    by_cases hin : (a.accepted && (decide (start ≤ a.time) && decide (a.time ≤ stop))) = true
    · rw [if_pos hin]
      simp only [Bool.and_eq_true, decide_eq_true_eq] at hin
      obtain ⟨haccepted, hstart, hstop⟩ := hin
      obtain ⟨j, hj, hfirst, hcount⟩ := exists_taken_since log start stop
      -- `a` was accepted although what the interval let pass before it was taken
      have hroom := mt (turned_away_iff h (i := log.length) (a := a) (by simp)).mpr (by simp [haccepted])
      have hbound : ∀ b, (log ++ [a])[j]? = some b → start ≤ b.time →
          (taken (log.drop j) : Nat) + 1 ≤ capacity + rate * (stop - start) := by
        intro b hb hbstart
        have hle : (taken (log.drop j) : Nat) + 1 ≤ capacity + rate * (a.time - b.time) := by
          by_contra hlt
          refine hroom ⟨j, b, hj, hb, ?_⟩
          rw [List.drop_append_of_le_length hj, ← List.length_drop, List.take_left]
          exact not_le.mp hlt
        have hspan : rate * (a.time - b.time) ≤ rate * (stop - start) :=
          mul_le_mul_of_nonneg_left (by linarith) hrate
        linarith
      have hcast : ((takenWithin start stop log : Nat) : α) ≤ (taken (log.drop j) : Nat) := Nat.cast_le.mpr hcount
      have hgoal : (taken (log.drop j) : Nat) + 1 ≤ capacity + rate * (stop - start) := by
        rcases Nat.lt_or_eq_of_le hj with hlt | rfl
        · have hb : log[j]? = some log[j] := List.getElem?_eq_getElem hlt
          exact hbound log[j] (by rw [List.getElem?_append_left hlt, hb]) (hfirst _ hb)
        · exact hbound a (by simp) hstart
      show ((takenWithin start stop log + 1 : Nat) : α) ≤ _
      rw [Nat.cast_add, Nat.cast_one]
      linarith
    · rw [if_neg hin]
      exact ih (fair_concat.mp h).1

end Fair

end

end TokenBucket
