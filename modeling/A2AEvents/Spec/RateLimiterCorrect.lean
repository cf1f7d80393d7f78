import A2AEvents.ForStd.TokenBucket
import A2AEvents.Native.RateLimiter

/-!
# What the rate limiter lets pass

Every bucket of the limiter is a token bucket of its own: what happens to a call depends on the
earlier calls on its bucket, and on no others.

## Key results

- `TokenBucketRateLimiter.fair_log`: what a bucket sees is the log of a token bucket
- `rateLimiter_laws`: what is turned away, what an interval lets pass, independence
-/

namespace A2AEvents

open TokenBucket

namespace TokenBucketRateLimiter

/-- A call to the limiter, at a reading of its clock. -/
structure Call where
  now : ℚ
  key : Option String
  operation : String

/-- The bucket that a call asks for a token. -/
def Call.bucket (c : Call) : String × String := bucketKey c.key c.operation

def exec (limiter : TokenBucketRateLimiter) (c : Call) : Except PyError Unit × TokenBucketRateLimiter :=
  limiter.check c.now c.key c.operation

/-- The outcomes of some calls. -/
def run (limiter : TokenBucketRateLimiter) : List Call → List (Call × Except PyError Unit)
  | [] => []
  | c :: calls => (c, (limiter.exec c).1) :: run (limiter.exec c).2 calls

/-- What a bucket sees of some calls. -/
def log (limiter : TokenBucketRateLimiter) (calls : List Call) (bucket : String × String) : List (Arrival ℚ) :=
  ((limiter.run calls).filter fun e => e.1.bucket = bucket).map fun e => ⟨e.1.now, e.2.isOk⟩

variable {limiter limiter' : TokenBucketRateLimiter} {bucket : String × String}

/-! ## One call -/

/-- The tokens that a call finds. -/
def found (limiter : TokenBucketRateLimiter) (c : Call) : ℚ :=
  refill limiter.rate limiter.capacity (limiter.buckets.get? c.bucket) c.now

/-- A new bucket is taken to have been filled just now. -/
theorem found_eq (limiter : TokenBucketRateLimiter) (c : Call) :
    limiter.found c = min limiter.capacity
      ((limiter.buckets.getD c.bucket (limiter.capacity, c.now)).1 +
        (c.now - (limiter.buckets.getD c.bucket (limiter.capacity, c.now)).2) * limiter.rate) := by
  rw [found, Dict.getD]
  cases h : limiter.buckets.get? c.bucket with
  | none =>
    show limiter.capacity = min limiter.capacity (limiter.capacity + (c.now - c.now) * limiter.rate)
    rw [sub_self, zero_mul, add_zero, min_self]
  | some b => rfl

/-- What a call does, in terms of the tokens it finds. -/
theorem exec_eq (limiter : TokenBucketRateLimiter) (c : Call) :
    limiter.exec c =
      if limiter.found c < 1 then
        (rateLimitExceeded c.operation,
          { limiter with buckets := limiter.buckets.set c.bucket (limiter.found c, c.now) })
      else
        (.ok (), { limiter with buckets := limiter.buckets.set c.bucket (limiter.found c - 1, c.now) }) := by
  rw [found_eq]
  rfl

/-- A call passes if it finds a token. -/
theorem exec_outcome (limiter : TokenBucketRateLimiter) (c : Call) :
    (limiter.exec c).1 = if limiter.found c < 1 then rateLimitExceeded c.operation else .ok () := by
  rw [exec_eq]
  split <;> rfl

theorem isOk_exec (limiter : TokenBucketRateLimiter) (c : Call) :
    (limiter.exec c).1.isOk = true ↔ 1 ≤ limiter.found c := by
  rw [exec_outcome]
  split
  · rename_i h
    constructor
    · intro hok
      cases hok
    · intro hle
      exact absurd h (not_lt.mpr hle)
  · rename_i h
    exact ⟨fun _ => not_lt.mp h, fun _ => rfl⟩

@[simp] theorem exec_rate (limiter : TokenBucketRateLimiter) (c : Call) : (limiter.exec c).2.rate = limiter.rate := by
  rw [exec_eq]
  split <;> rfl

@[simp] theorem exec_capacity (limiter : TokenBucketRateLimiter) (c : Call) :
    (limiter.exec c).2.capacity = limiter.capacity := by
  rw [exec_eq]
  split <;> rfl

/-- A call touches its bucket, and no other. -/
theorem get?_exec (limiter : TokenBucketRateLimiter) (c : Call) (bucket : String × String) :
    (limiter.exec c).2.buckets.get? bucket =
      if c.bucket = bucket then
        touch limiter.rate limiter.capacity (limiter.buckets.get? bucket) ⟨c.now, (limiter.exec c).1.isOk⟩
      else limiter.buckets.get? bucket := by
  have hok := isOk_exec limiter c
  have hset : (limiter.exec c).2.buckets =
      limiter.buckets.set c.bucket (limiter.found c - (if (limiter.exec c).1.isOk then 1 else 0), c.now) := by
    by_cases hfound : limiter.found c < 1
    · rw [if_neg (mt hok.mp (not_le.mpr hfound)), sub_zero, exec_eq, if_pos hfound]
    · rw [if_pos (hok.mpr (not_lt.mp hfound)), exec_eq, if_neg hfound]
  rw [hset, Dict.get?_set]
  by_cases hb : c.bucket = bucket
  · subst hb
    rw [if_pos rfl, if_pos rfl]
    rfl
  · rw [if_neg (Ne.symm hb), if_neg hb]

/-! ## Any number of calls -/

theorem log_cons (limiter : TokenBucketRateLimiter) (c : Call) (calls : List Call) (bucket : String × String) :
    limiter.log (c :: calls) bucket =
      if c.bucket = bucket then ⟨c.now, (limiter.exec c).1.isOk⟩ :: (limiter.exec c).2.log calls bucket
      else (limiter.exec c).2.log calls bucket := by
  rw [log, run, List.filter_cons]
  by_cases hb : c.bucket = bucket
  · rw [if_pos (decide_eq_true hb), if_pos hb]
    rfl
  · rw [if_neg (by simpa using hb), if_neg hb]
    rfl

/-- What a bucket sees continues what it saw. -/
theorem fair_append {before : List (Arrival ℚ)} (calls : List Call)
    (hbucket : limiter.buckets.get? bucket = bucketAfter limiter.rate limiter.capacity before)
    (hfair : Fair limiter.rate limiter.capacity before) :
    Fair limiter.rate limiter.capacity (before ++ limiter.log calls bucket) := by
  induction calls generalizing limiter before with
  | nil =>
    show Fair _ _ (before ++ [])
    rw [List.append_nil]
    exact hfair
  | cons c calls ih =>
    have hget := get?_exec limiter c bucket
    rw [log_cons]
    by_cases hb : c.bucket = bucket
    · rw [if_pos hb] at hget ⊢
      let a : Arrival ℚ := ⟨c.now, (limiter.exec c).1.isOk⟩
      have hlevel : limiter.found c = level limiter.rate limiter.capacity before a.time := by
        rw [found, hb, hbucket]
        rfl
      have hconcat : Fair limiter.rate limiter.capacity (before ++ [a]) := by
        rw [fair_concat, ← hlevel]
        exact ⟨hfair, isOk_exec limiter c⟩
      rw [hbucket, ← bucketAfter_concat] at hget
      have hrest : Fair (limiter.exec c).2.rate (limiter.exec c).2.capacity
          (before ++ [a] ++ (limiter.exec c).2.log calls bucket) := ih (by simpa using hget) (by simpa using hconcat)
      rw [exec_rate, exec_capacity, List.append_assoc] at hrest
      exact hrest
    · rw [if_neg hb] at hget ⊢
      have hrest : Fair (limiter.exec c).2.rate (limiter.exec c).2.capacity
          (before ++ (limiter.exec c).2.log calls bucket) := ih (by simpa [hget] using hbucket) (by simpa using hfair)
      rw [exec_rate, exec_capacity] at hrest
      exact hrest

/-- What a bucket of a new limiter sees is the log of a token bucket. -/
theorem fair_log (rate capacity : ℚ) (calls : List Call) (bucket : String × String) :
    Fair rate capacity (({ rate, capacity } : TokenBucketRateLimiter).log calls bucket) := by
  have h : Fair rate capacity ([] ++ ({ rate, capacity } : TokenBucketRateLimiter).log calls bucket) :=
    fair_append calls rfl (fair_nil rate capacity)
  exact h

/-- Without the calls on other buckets, a bucket sees the same. -/
theorem log_filter (calls : List Call) (hrate : limiter.rate = limiter'.rate)
    (hcapacity : limiter.capacity = limiter'.capacity)
    (hbucket : limiter.buckets.get? bucket = limiter'.buckets.get? bucket) :
    limiter.log calls bucket = limiter'.log (calls.filter fun c => c.bucket = bucket) bucket := by
  induction calls generalizing limiter limiter' with
  | nil => rfl
  | cons c calls ih =>
    rw [log_cons, List.filter_cons]
    have hget := get?_exec limiter c bucket
    by_cases hb : c.bucket = bucket
    · have hfound : limiter.found c = limiter'.found c := by
        rw [found, found, hb, hrate, hcapacity, hbucket]
      have hsame : (limiter.exec c).1 = (limiter'.exec c).1 := by
        rw [exec_outcome, exec_outcome, hfound]
      have hget' := get?_exec limiter' c bucket
      rw [if_pos hb, if_pos (decide_eq_true hb), log_cons, if_pos hb, hsame]
      rw [if_pos hb] at hget hget'
      congr 1
      apply ih
      · simpa using hrate
      · simpa using hcapacity
      · rw [hget, hget', hrate, hcapacity, hbucket, hsame]
    · rw [if_neg hb, if_neg (by simpa using hb)]
      rw [if_neg hb] at hget
      apply ih
      · simpa using hrate
      · simpa using hcapacity
      · rw [hget, hbucket]

/-- A call passes or is turned away with `RATE_LIMITED`. -/
theorem run_outcome (calls : List Call) :
    ∀ e ∈ limiter.run calls, e.2 = .ok () ∨ e.2 = rateLimitExceeded e.1.operation := by
  induction calls generalizing limiter with
  | nil =>
    intro e he
    cases he
  | cons c calls ih =>
    intro e he
    rcases List.mem_cons.mp he with rfl | he
    · show (limiter.exec c).1 = _ ∨ (limiter.exec c).1 = _
      rw [exec_outcome]
      split
      · exact .inr rfl
      · exact .inl rfl
    · exact ih e he

end TokenBucketRateLimiter

/-! ## The laws -/

open TokenBucketRateLimiter

/-- What a limiter does over some calls. -/
structure RateLimiterLaws (limiter : TokenBucketRateLimiter) (calls : List Call) : Prop where
  /-- Every call passes or is turned away with `RATE_LIMITED`. -/
  outcome : ∀ e ∈ limiter.run calls, e.2 = .ok () ∨ e.2 = rateLimitExceeded e.1.operation
  /-- The `i`-th call on a bucket is turned away exactly if, since it or an earlier one, capacity and
      refill are not worth what passed and one more. -/
  turnedAway : ∀ bucket i a, (limiter.log calls bucket)[i]? = some a →
    (a.accepted = false ↔ ∃ j b, j ≤ i ∧ (limiter.log calls bucket)[j]? = some b ∧
      limiter.capacity + limiter.rate * (a.time - b.time) <
        (taken (((limiter.log calls bucket).drop j).take (i - j)) : Nat) + 1)
  /-- An interval of time lets no more pass on a bucket than capacity and its refill are worth. -/
  window : ∀ bucket start stop, start ≤ stop →
    (takenWithin start stop (limiter.log calls bucket) : Nat) ≤ limiter.capacity + limiter.rate * (stop - start)
  /-- Calls on other buckets change nothing. -/
  alone : ∀ bucket,
    limiter.log calls bucket = limiter.log (calls.filter fun c => c.bucket = bucket) bucket

/-- A new limiter keeps the laws, however its clock runs. -/
theorem rateLimiter_laws {rate capacity : ℚ} (hrate : 0 ≤ rate) (hcapacity : 0 ≤ capacity) (calls : List Call) :
    RateLimiterLaws { rate, capacity } calls where
  outcome := run_outcome calls
  turnedAway bucket _ _ ha := (fair_log rate capacity calls bucket).turned_away_iff ha
  window bucket _ _ hle := (fair_log rate capacity calls bucket).window hrate hcapacity hle
  alone _ := log_filter calls rfl rfl rfl

theorem rateLimiter_laws_sample :
    RateLimiterLaws { rate := 1, capacity := 2 }
      [⟨0, some "k", "subscribe"⟩, ⟨0, some "k", "subscribe"⟩, ⟨0, some "k", "subscribe"⟩, ⟨1, some "k", "subscribe"⟩] :=
  rateLimiter_laws (by norm_num) (by norm_num) _

example : (({ rate := 1, capacity := 2 } : TokenBucketRateLimiter).log
    [⟨0, some "k", "subscribe"⟩, ⟨0, some "k", "subscribe"⟩, ⟨0, some "k", "subscribe"⟩, ⟨1, some "k", "subscribe"⟩]
    ("k", "subscribe")).map Arrival.accepted = [true, true, false, true] := by decide +kernel

end A2AEvents
