import Mathlib.Data.Rat.Defs
import Mathlib.Algebra.Order.Ring.Unbundled.Rat
import A2AEvents.ForStd.Dict
import A2AEvents.Native.Errors

/-!
# Rate limits

`TokenBucketRateLimiter` of `limits.py`. Rates, tokens and clock readings are floats there and
rational numbers here.
-/

namespace A2AEvents

/-- `TokenBucketRateLimiter`. A bucket is its tokens and the time it was last touched. -/
structure TokenBucketRateLimiter where
  rate : ℚ
  capacity : ℚ
  buckets : Dict (String × String) (ℚ × ℚ) := ∅

namespace TokenBucketRateLimiter

/-- The bucket of a principal and an operation; anonymous callers share one. -/
def bucketKey (key : Option String) (operation : String) : String × String :=
  match key with
  | none => ("<anonymous>", operation)
  | some key => (if key = "" then "<anonymous>" else key, operation)

def rateLimitExceeded (operation : String) : Except PyError Unit :=
  raiseA2A .rateLimited ("Rate limit exceeded for operation " ++ operation ++ ".") [("operation", .str operation)]

/-- One call at a reading of the clock. A call that is turned away is written down, too. -/
def check (limiter : TokenBucketRateLimiter) (now : ℚ) (key : Option String) (operation : String) :
    Except PyError Unit × TokenBucketRateLimiter :=
  let bucketKey := bucketKey key operation
  let (tokens, last) := limiter.buckets.getD bucketKey (limiter.capacity, now)
  let tokens := min limiter.capacity (tokens + (now - last) * limiter.rate)
  if tokens < 1 then
    (rateLimitExceeded operation, { limiter with buckets := limiter.buckets.set bucketKey (tokens, now) })
  else
    (.ok (), { limiter with buckets := limiter.buckets.set bucketKey (tokens - 1, now) })

end TokenBucketRateLimiter

end A2AEvents
