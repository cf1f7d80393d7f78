import Mathlib.Data.Rat.Defs
import Mathlib.Algebra.Order.Ring.Unbundled.Rat
import A2AEvents.Native.Errors

/-!
# Lease renewal

`AutoLeaseRenewer` of `lease.py`. Times and delays are rational numbers here, and the clock advances
only while the renewer sleeps. The renewals and the last error, which are kept for observation, are
left out, and so is `aclose`, which ends the loop from outside.
-/

namespace A2AEvents

/-- `AutoLeaseRenewer`; the constructor refuses a fraction that is not in `(0, 1)`. -/
structure AutoLeaseRenewer where
  renewFraction : ℚ
  minSleep : ℚ
  fraction_pos : 0 < renewFraction
  fraction_lt_one : renewFraction < 1

/-- What comes of a renew call: a lease of the length that was asked for, or an exception. -/
inductive RenewOutcome where
  | renewed
  | failed (e : PyError)

/-- What `renew` returns at a reading of the clock. -/
def RenewOutcome.answer (leaseSeconds now : ℚ) : RenewOutcome → Except PyError ℚ
  | .renewed => .ok (now + leaseSeconds)
  | .failed e => .error e

/-- The failure of a subscription that is gone. -/
def PyError.isTerminal (e : PyError) : Bool := e.code? = some .subscriptionNotFound

namespace AutoLeaseRenewer

/-- One pass of the loop: when it begins, the lease in force, and when it calls `renew`. -/
structure Pass where
  start : ℚ
  leaseUntil : ℚ
  call : ℚ
  deriving DecidableEq

def renewalDelay (r : AutoLeaseRenewer) (now leaseUntil leaseSeconds : ℚ) : ℚ :=
  let remaining := leaseUntil - now
  let delay := remaining - (1 - r.renewFraction) * leaseSeconds
  max r.minSleep delay

/-- The time after the pause, unless the lease has lapsed. -/
def retryPause (r : AutoLeaseRenewer) (now leaseUntil : ℚ) : Option ℚ :=
  let remaining := leaseUntil - now
  if remaining ≤ 0 then none else some (now + min r.minSleep remaining)

/-- The loop of `_run`, as far as there are outcomes for its calls. -/
def run (r : AutoLeaseRenewer) (leaseSeconds now leaseUntil : ℚ) : List RenewOutcome → List Pass
  | [] => []
  | outcome :: outcomes =>
    let call := now + r.renewalDelay now leaseUntil leaseSeconds
    let pass := { start := now, leaseUntil, call }
    match outcome.answer leaseSeconds call with
    | .ok granted => pass :: run r leaseSeconds call granted outcomes
    | .error e =>
      if e.isTerminal then [pass]
      else
        match r.retryPause call leaseUntil with
        | none => [pass]
        | some now => pass :: run r leaseSeconds now leaseUntil outcomes

end AutoLeaseRenewer

end A2AEvents
