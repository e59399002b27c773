import Etherchimp.Lib.Budget
import Etherchimp.Lib.KeyedMap

/-!
# The per-IP rate limiter

One token bucket for each client address. `Allow` creates the bucket, refills it
by the time since it was last updated, and takes a token; a background loop drops
the buckets that were not accessed for `maxAge`. Times and durations are in
seconds, and exact.
-/

namespace Etherchimp

/-- The configuration of the limiter. -/
structure RateLimitConfig where
  /-- Tokens added per second. -/
  requestsPerSecond : ℚ
  /-- Maximum tokens. -/
  burstSize : Int
  cleanupInterval : ℚ
  clientMaxAge : ℚ

def defaultRateLimitConfig : RateLimitConfig where
  requestsPerSecond := 10
  burstSize := 50
  cleanupInterval := 5 * 60
  clientMaxAge := 10 * 60

/-- The rate limit state of one client. -/
structure ClientBucket where
  tokens : ℚ
  lastUpdate : ℚ
  lastAccess : ℚ

structure RateLimiter where
  clients : KeyedMap String ClientBucket
  rate : ℚ
  burst : Int
  cleanupEvery : ℚ
  maxAge : ℚ

def newRateLimiter (config : RateLimitConfig) : RateLimiter where
  clients := ∅
  rate := config.requestsPerSecond
  burst := config.burstSize
  cleanupEvery := config.cleanupInterval
  maxAge := config.clientMaxAge

/-- The bucket after the refill `Allow` does first. -/
def ClientBucket.refill (b : ClientBucket) (rate : ℚ) (burst : Int) (now : ℚ) : ClientBucket :=
  let elapsed := now - b.lastUpdate
  let tokens := b.tokens + elapsed * rate
  { tokens := if (burst : ℚ) < tokens then burst else tokens
    lastUpdate := now
    lastAccess := now }

namespace RateLimiter

/-- Is a request from this IP allowed, and the limiter after it. -/
def allow (rl : RateLimiter) (now : ℚ) (ip : String) : Bool × RateLimiter :=
  match rl.clients.lookup ip with
  | none =>
      -- a new client has a full bucket, less the token for this request
      let bucket : ClientBucket :=
        { tokens := (rl.burst : ℚ) - 1, lastUpdate := now, lastAccess := now }
      (true, { rl with clients := rl.clients.insert ip bucket })
  | some bucket =>
      let bucket := bucket.refill rl.rate rl.burst now
      if 1 ≤ bucket.tokens then
        let bucket := { bucket with tokens := bucket.tokens - 1 }
        (true, { rl with clients := rl.clients.insert ip bucket })
      else
        (false, { rl with clients := rl.clients.insert ip bucket })

/-- Was the bucket not accessed for longer than `maxAge`. -/
def stale (rl : RateLimiter) (now : ℚ) (ip : String) : Bool :=
  match rl.clients.lookup ip with
  | some bucket => decide (rl.maxAge < now - bucket.lastAccess)
  | none => false

/-- Drop the clients that have not been seen recently. -/
def cleanup (rl : RateLimiter) (now : ℚ) : RateLimiter :=
  { rl with clients := KeyedMap.filterKey (fun ip => !rl.stale now ip) rl.clients }

/-- What happens to the limiter: a request, or a pass of the cleanup loop. -/
inductive Call where
  | allow (now : ℚ) (ip : String)
  | cleanup (now : ℚ)
deriving DecidableEq

/-- When the call takes the lock. -/
def Call.now : Call → ℚ
  | .allow now _ => now
  | .cleanup now => now

def call (rl : RateLimiter) : Call → RateLimiter
  | .allow now ip => (rl.allow now ip).2
  | .cleanup now => rl.cleanup now

/-- The call is a request of `ip`, and it is allowed. -/
def allows (ip : String) (rl : RateLimiter) : Call → Bool
  | .allow now ip' => decide (ip' = ip) && (rl.allow now ip').1
  | .cleanup _ => false

/-- The allowed requests of `ip`, in a run from `rl`. -/
def allowed (ip : String) (rl : RateLimiter) (calls : List Call) : List Call :=
  Budget.granted call (allows ip) rl calls

end RateLimiter

end Etherchimp
