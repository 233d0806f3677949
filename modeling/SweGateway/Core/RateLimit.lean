import SweGateway.Api.Json
import SweGateway.Api.Middleware
import SweGateway.Api.Types
import SweGateway.Lib.Runs
import Mathlib.Data.Rat.Cast.Order
import Mathlib.Tactic.NormNum

/-!
# The rate limiter (`core/rate_limit.rs`)

A `RateLimiter` counts tokens and refills them when it is asked, by the time that has passed since
it was asked last.  Time and tokens are exact here: an instant is a number of seconds, and the
doubles of the source are rational numbers.  The parameter `display` prints the refill rate.

The builder clamps the capacity and the refill rate; the bounds are fields, so that every limiter
has them.

As a request middleware a limiter is shared: it is behind a mutex and reads the clock of the world.
`LimiterCell` says where it is.
-/

namespace SweGateway

/-- A reading of the monotonic clock, in seconds. -/
abbrev Instant := ℚ

/-- The seconds from `earlier` to `later`, zero if `later` comes first
(`duration_since(..).as_secs_f64()`). -/
def Instant.secondsSince (later earlier : Instant) : ℚ := max 0 (later - earlier)

/-- Default bucket capacity (maximum burst size). -/
def defaultCapacity : UInt64 := 100

/-- Default refill rate in tokens per second. -/
def defaultRefillRate : ℚ := 10

/-- Minimum permitted refill rate to prevent division-by-zero or starvation. -/
def minRefillRate : ℚ := 1 / 1000

/-- Internal mutable state of the token bucket. -/
structure BucketState where
  /-- Current number of available tokens. -/
  tokens : ℚ
  /-- When the tokens were refilled last. -/
  lastRefill : Instant
  deriving DecidableEq

/-- Token-bucket rate limiter. -/
structure RateLimiter where
  state : BucketState
  capacity : UInt64
  refillRate : ℚ
  one_le_capacity : 1 ≤ capacity.toNat
  minRefillRate_le : minRefillRate ≤ refillRate

/-- A capacity that is raised to one is at least one. -/
theorem one_le_max (capacity : UInt64) : 1 ≤ (max capacity 1).toNat := by
  show 1 ≤ (if capacity ≤ 1 then 1 else capacity).toNat
  split_ifs with h
  · decide
  · rw [UInt64.le_iff_toNat_le] at h
    exact (not_le.mp h).le

/-- Builder for constructing a `RateLimiter` with custom parameters. -/
structure RateLimiterBuilder where
  capacity : UInt64
  refillRate : ℚ
  one_le_capacity : 1 ≤ capacity.toNat
  minRefillRate_le : minRefillRate ≤ refillRate

namespace RateLimiterBuilder

/-- A builder with default values. -/
def new : RateLimiterBuilder where
  capacity := defaultCapacity
  refillRate := defaultRefillRate
  one_le_capacity := by decide
  minRefillRate_le := by norm_num [minRefillRate, defaultRefillRate]

/-- Sets the maximum number of tokens the bucket can hold, at least one. -/
def withCapacity (b : RateLimiterBuilder) (capacity : UInt64) : RateLimiterBuilder :=
  { b with
    capacity := max capacity 1
    one_le_capacity := one_le_max capacity }

/-- Sets the refill rate in tokens per second, at least `minRefillRate`. -/
def withRefillRate (b : RateLimiterBuilder) (rate : ℚ) : RateLimiterBuilder :=
  { b with
    refillRate := max rate minRefillRate
    minRefillRate_le := le_max_right rate minRefillRate }

/-- Builds the rate limiter at the instant `now`, with a full bucket. -/
def build (b : RateLimiterBuilder) (now : Instant) : RateLimiter where
  state := { tokens := b.capacity.toNat, lastRefill := now }
  capacity := b.capacity
  refillRate := b.refillRate
  one_le_capacity := b.one_le_capacity
  minRefillRate_le := b.minRefillRate_le

end RateLimiterBuilder

/-- A call of the rate limiter at an instant. -/
inductive RateLimiterCall where
  | tryAcquire (now : Instant)
  | availableTokens (now : Instant)
  deriving DecidableEq

namespace RateLimiterCall

/-- When the call is made. -/
def now : RateLimiterCall → Instant
  | .tryAcquire now => now
  | .availableTokens now => now

/-- The call asks for a token. -/
def isTryAcquire : RateLimiterCall → Bool
  | .tryAcquire _ => true
  | .availableTokens _ => false

end RateLimiterCall

namespace RateLimiter

/-- Creates a rate limiter with the given capacity and refill rate. -/
def new (capacity : UInt64) (refillRate : ℚ) (now : Instant) : RateLimiter :=
  ((RateLimiterBuilder.new.withCapacity capacity).withRefillRate refillRate).build now

/-- The bucket refilled by the time since the last refill, capped at the capacity. -/
def refilled (l : RateLimiter) (now : Instant) : BucketState :=
  let elapsed := Instant.secondsSince now l.state.lastRefill
  let newTokens := l.state.tokens + elapsed * l.refillRate
  { tokens := min newTokens l.capacity.toNat, lastRefill := now }

@[simp] theorem lastRefill_refilled (l : RateLimiter) (now : Instant) :
    (l.refilled now).lastRefill = now := rfl

/-- The error of a request that finds the bucket empty. -/
def rateLimitExceeded (display : ℚ → String) (l : RateLimiter) : GatewayError :=
  .rateLimitExceeded ("capacity " ++ toString l.capacity.toNat ++ ", refill rate " ++
    display l.refillRate ++ "/s — try again shortly")

/-- Attempts to acquire a single token. -/
def tryAcquire (display : ℚ → String) (l : RateLimiter) (now : Instant) :
    GatewayResult Unit × RateLimiter :=
  let state := l.refilled now
  if state.tokens ≥ 1 then
    (.ok (), { l with state := { state with tokens := state.tokens - 1 } })
  else (.error (l.rateLimitExceeded display), { l with state := state })

/-- The current number of available tokens, as an integer of 64 bits. -/
def availableTokens (l : RateLimiter) (now : Instant) : UInt64 × RateLimiter :=
  let state := l.refilled now
  (UInt64.ofNat (min state.tokens.floor.toNat (UInt64.size - 1)), { l with state := state })

/-- The rate limiter after a call. -/
def step (display : ℚ → String) (l : RateLimiter) : RateLimiterCall → RateLimiter
  | .tryAcquire now => (l.tryAcquire display now).2
  | .availableTokens now => (l.availableTokens now).2

/-- The rate limiter after the calls `calls`, one after another. -/
def after (display : ℚ → String) (l : RateLimiter) (calls : List RateLimiterCall) : RateLimiter :=
  Runs.exec (step display) l calls

/-- The calls of `try_acquire` among `calls`: when each is made and what it returns. -/
def acquisitions (display : ℚ → String) :
    RateLimiter → List RateLimiterCall → List (Instant × GatewayResult Unit)
  | _, [] => []
  | l, .tryAcquire now :: calls =>
    (now, (l.tryAcquire display now).1) :: acquisitions display (l.tryAcquire display now).2 calls
  | l, .availableTokens now :: calls => acquisitions display (l.availableTokens now).2 calls

end RateLimiter

/-! ### `RequestMiddleware` -/

/-- A world with a clock and a rate limiter in it. -/
structure LimiterCell (W : Type) where
  now : W → Instant
  limiter : W → RateLimiter
  set : RateLimiter → W → W
  limiter_set : ∀ l w, limiter (set l w) = l
  now_set : ∀ l w, now (set l w) = now w

namespace LimiterCell

variable {W : Type}

/-- `try_acquire` on the shared limiter. -/
def tryAcquire (display : ℚ → String) (cell : LimiterCell W) : Eff W GatewayError Unit := fun w =>
  let (result, l) := (cell.limiter w).tryAcquire display (cell.now w)
  (result, cell.set l w)

def processRequest (display : ℚ → String) (cell : LimiterCell W) (request : Value) :
    Eff W GatewayError Value := do
  cell.tryAcquire display
  return request

/-- The limiter as a request middleware: it does not override `process_request_action`. -/
def middleware (display : ℚ → String) (cell : LimiterCell W) :
    RequestMiddleware W Value GatewayError Value :=
  .ofProcessRequest (cell.processRequest display)

end LimiterCell

end SweGateway
