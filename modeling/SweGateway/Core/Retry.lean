import SweGateway.Api.Json
import SweGateway.Api.Types
import SweGateway.Core.Pipeline

/-!
# The retry middleware (`core/retry.rs`)

`RetryMiddleware` wraps a request middleware and calls it again after a retryable failure.  It
implements `process_request` and takes `process_request_action` from the trait.

Durations are in nanoseconds.  The sleeper and the clock that the jitter reads act on the world.
-/

namespace SweGateway

/-- A duration in nanoseconds. -/
abbrev Duration := ℕ

namespace Duration

def ofMillis (ms : ℕ) : Duration := ms * 1000000

def asMillis (d : Duration) : ℕ := d / 1000000

end Duration

/-- The largest 64-bit integer, at which the source's arithmetic saturates. -/
def u64Max : ℕ := 2 ^ 64 - 1

/-- Strategy for computing the delay between retry attempts. -/
inductive BackoffStrategy where
  /-- Constant delay between each attempt. -/
  | fixed (delay : Duration)
  /-- Exponentially increasing delay: `base * 2^attempt`, plus some jitter if enabled. -/
  | exponential (base : Duration) (jitter : Bool)
  deriving DecidableEq, Repr

/-- The sleep duration for the given zero-based attempt, where the clock reads `nanos` nanoseconds
past the second. -/
def BackoffStrategy.computeDelay (nanos attempt : ℕ) : BackoffStrategy → Duration
  | .fixed delay => delay
  | .exponential base jitter =>
    let multiplier := min (2 ^ attempt) u64Max
    let baseMs := Duration.asMillis base % 2 ^ 64
    let delayMs := min (baseMs * multiplier) u64Max
    if jitter then
      let jitterMs := if 0 < delayMs then nanos % delayMs else 0
      Duration.ofMillis (min (delayMs + jitterMs) u64Max)
    else Duration.ofMillis delayMs

/-- The settings of a retry middleware.  The builder refuses to set zero attempts. -/
structure RetryMiddlewareSpec (W : Type) where
  /-- Maximum number of total attempts (1 = no retry). -/
  maxAttempts : ℕ := 3
  maxAttempts_pos : 0 < maxAttempts := by decide
  /-- Backoff strategy between attempts. -/
  backoff : BackoffStrategy := .exponential (Duration.ofMillis 200) true
  /-- Predicate deciding whether an error is retryable. -/
  predicate : GatewayError → Bool := GatewayError.isRetryable
  /-- What sleeping does to the world. -/
  sleep : Duration → W → W
  /-- The clock: the nanoseconds past the second. -/
  nanos : W → ℕ

/-- A request middleware that retries transient failures. -/
structure RetryMiddleware (W : Type) extends RetryMiddlewareSpec W where
  /-- Inner request middleware to wrap with retry logic. -/
  inner : RequestMiddleware W Value GatewayError Value

/-- Finalizes the settings by wrapping the given inner middleware. -/
def RetryMiddlewareSpec.wrap {W : Type} (spec : RetryMiddlewareSpec W)
    (inner : RequestMiddleware W Value GatewayError Value) : RetryMiddleware W :=
  { spec with inner := inner }

namespace RetryMiddleware

variable {W : Type}

/-- The attempts from `attempt` on, `left` of them. -/
def attempts (m : RetryMiddleware W) (request : Value) :
    (left attempt : ℕ) → (lastError : Option GatewayError) → Eff W GatewayError Value
  | 0, _, lastError =>
    -- should be unreachable if there is at least one attempt
    .fail (lastError.getD (.internal "retry loop exited without result or error"))
  | left + 1, attempt, _ => fun w =>
    match m.inner.processRequest request w with
    | (.ok response, w') => (.ok response, w')
    | (.error err, w') =>
      if m.maxAttempts ≤ attempt + 1 ∨ m.predicate err = false then (.error err, w')
      else
        let delay := m.backoff.computeDelay (m.nanos w') attempt
        attempts m request left (attempt + 1) (some err) (m.sleep delay w')

def processRequest (m : RetryMiddleware W) (request : Value) : Eff W GatewayError Value :=
  m.attempts request m.maxAttempts 0 none

/-- The retry middleware as a request middleware: it does not override `process_request_action`. -/
def toRequestMiddleware (m : RetryMiddleware W) : RequestMiddleware W Value GatewayError Value :=
  .ofProcessRequest m.processRequest

end RetryMiddleware

end SweGateway
