import SweGateway.Core.Equiv.RateLimited
import SweGateway.Core.Equiv.RetryLoop

/-!
# Retrying after the rate limiter

The rate limiter refuses with an error that is retryable, and a retry middleware around it sleeps
and asks again.  While it sleeps the bucket is refilled, so what it gets in the end is decided by
the whole time it may sleep: the request passes if and only if the tokens there are and those that
are refilled before the last attempt make up one (`processRequest_retried`).  The tokens are exact,
and sleeping takes just the time it says (`Waits`).

`Refused k` is the state before attempt `k`, when the attempts before it have been refused: no token
has been taken, and the bucket has been refilled by the time slept.
-/

namespace SweGateway

open TokenBucket

/-- The duration in seconds. -/
def Duration.asSecs (d : Duration) : ℚ := (d : ℚ) / 10 ^ 9

theorem Duration.asSecs_nonneg (d : Duration) : 0 ≤ d.asSecs :=
  div_nonneg (Nat.cast_nonneg d) (by norm_num)

namespace RateLimiter

variable (display : ℚ → String)

/-- A token is granted if there is one. -/
theorem fst_tryAcquire (l : RateLimiter) (now : Instant) :
    (l.tryAcquire display now).1 =
      if 1 ≤ l.available now then .ok () else .error (l.rateLimitExceeded display) := by
  unfold RateLimiter.tryAcquire available
  dsimp only
  split_ifs <;> rfl

/-- The tokens some time after a call. -/
theorem available_add {l : RateLimiter} {now : Instant} (hlast : l.state.lastRefill = now)
    (hle : l.state.tokens ≤ l.capacity.toNat) {elapsed : ℚ} (h : 0 ≤ elapsed) :
    l.available (now + elapsed) =
      refill (l.capacity.toNat : ℚ) l.refillRate (l.available now) elapsed := by
  have hnow : l.state.lastRefill ≤ now + elapsed := by
    rw [hlast]
    exact le_add_of_nonneg_right h
  rw [available_of_state hlast hle, available, tokens_refilled hnow, hlast, add_sub_cancel_left]

end RateLimiter

namespace LimiterCell

open RateLimiter RetryMiddleware

variable {W : Type} (display : ℚ → String) (cell : LimiterCell W)

/-- The settings retry after a refusal of the limiter, and sleeping takes the time it says, during
which nobody else calls the limiter. -/
structure Waits (spec : RetryMiddlewareSpec W) : Prop where
  retries : ∀ text, spec.predicate (.rateLimitExceeded text) = true
  now_sleep : ∀ d w, cell.now (spec.sleep d w) = cell.now w + Duration.asSecs d
  limiter_sleep : ∀ d w, cell.limiter (spec.sleep d w) = cell.limiter w

/-- The seconds slept before attempt `k`, if the attempts before it are refused. -/
def slept (m : RetryMiddleware W) (request : Value) (w : W) (k : ℕ) : ℚ :=
  ((List.range k).map fun i => (m.delay request w i).asSecs).sum

theorem slept_succ (m : RetryMiddleware W) (request : Value) (w : W) (k : ℕ) :
    slept m request w (k + 1) = slept m request w k + (m.delay request w k).asSecs := by
  simp [slept, List.range_succ]

theorem slept_mono (m : RetryMiddleware W) (request : Value) (w : W) {k k' : ℕ} (h : k ≤ k') :
    slept m request w k ≤ slept m request w k' := by
  induction h with
  | refl => exact le_rfl
  | step _ ih =>
    rw [slept_succ]
    exact ih.trans (le_add_of_nonneg_right (Duration.asSecs_nonneg _))

/-- The tokens that are there, and those that are refilled in the time slept before attempt `k`,
make up one. -/
def Enough (m : RetryMiddleware W) (request : Value) (w : W) (k : ℕ) : Prop :=
  1 ≤ (cell.limiter w).available (cell.now w) +
    (cell.limiter w).refillRate * slept m request w k

/-- The world before attempt `k`, after refusals only. -/
structure Refused (m : RetryMiddleware W) (request : Value) (w : W) (k : ℕ) : Prop where
  bounds : (cell.limiter (m.worldBefore request w k)).InBounds
    (cell.now (m.worldBefore request w k))
  capacity : (cell.limiter (m.worldBefore request w k)).capacity = (cell.limiter w).capacity
  rate : (cell.limiter (m.worldBefore request w k)).refillRate = (cell.limiter w).refillRate
  available : (cell.limiter (m.worldBefore request w k)).available
      (cell.now (m.worldBefore request w k)) =
    refill ((cell.limiter w).capacity.toNat : ℚ) (cell.limiter w).refillRate
      ((cell.limiter w).available (cell.now w)) (slept m request w k)

variable {display cell} {spec : RetryMiddlewareSpec W} {request : Value} {w : W} {k : ℕ}

/-- The retry middleware around the limiter. -/
abbrev retried (display : ℚ → String) (cell : LimiterCell W) (spec : RetryMiddlewareSpec W) :
    RetryMiddleware W :=
  spec.wrap (cell.middleware display)

theorem refused_zero (h : (cell.limiter w).InBounds (cell.now w)) :
    cell.Refused (retried display cell spec) request w 0 where
  bounds := h
  capacity := rfl
  rate := rfl
  available := by
    have hzero : slept (retried display cell spec) request w 0 = 0 := rfl
    rw [hzero, refill, zero_mul, add_zero]
    exact (min_eq_left (available_le_capacity _ _)).symm

/-- An attempt asks the limiter. -/
theorem outcome_retried :
    (retried display cell spec).outcome request w k =
      ((cell.tryAcquire display ((retried display cell spec).worldBefore request w k)).1.map
          fun _ => request,
        (cell.tryAcquire display ((retried display cell spec).worldBefore request w k)).2) := by
  rcases Eff.ok_or_error (cell.tryAcquire display)
    ((retried display cell spec).worldBefore request w k) with ⟨u, w', hw⟩ | ⟨e, w', hw⟩
  · rw [hw]
    exact Eff.bind_of_ok hw
  · rw [hw]
    exact Eff.bind_of_error hw

/-- Whether an attempt passes after refusals. -/
theorem Refused.fst_outcome (h : cell.Refused (retried display cell spec) request w k) :
    ((retried display cell spec).outcome request w k).1 = .ok request ∧
        cell.Enough (retried display cell spec) request w k ∨
      ((retried display cell spec).outcome request w k).1 =
          .error ((cell.limiter w).rateLimitExceeded display) ∧
        ¬ cell.Enough (retried display cell spec) request w k := by
  set w' := (retried display cell spec).worldBefore request w k with hw'
  have hone : (1 : ℚ) ≤ (cell.limiter w).capacity.toNat :=
    Nat.one_le_cast.mpr (cell.limiter w).one_le_capacity
  -- the cap of the bucket does not matter for one token
  have henough : 1 ≤ (cell.limiter w').available (cell.now w') ↔
      cell.Enough (retried display cell spec) request w k := by
    rw [h.available, refill, le_min_iff, Enough, mul_comm (cell.limiter w).refillRate]
    exact and_iff_left hone
  have herror : (cell.limiter w').rateLimitExceeded display =
      (cell.limiter w).rateLimitExceeded display := by
    have hcapacity : (cell.limiter w').capacity = _ := h.capacity
    have hrate : (cell.limiter w').refillRate = _ := h.rate
    simp only [rateLimitExceeded, hcapacity, hrate]
  have hresult : (cell.tryAcquire display w').1 =
      ((cell.limiter w').tryAcquire display (cell.now w')).1 := rfl
  rw [outcome_retried, ← hw', hresult, RateLimiter.fst_tryAcquire, herror]
  by_cases hyes : 1 ≤ (cell.limiter w').available (cell.now w')
  · rw [if_pos hyes]
    exact .inl ⟨rfl, henough.mp hyes⟩
  · rw [if_neg hyes]
    exact .inr ⟨rfl, fun h => hyes (henough.mpr h)⟩

/-- A refusal, and the sleep after it. -/
theorem Refused.succ (hwaits : cell.Waits spec)
    (h : cell.Refused (retried display cell spec) request w k)
    (hnot : ¬ cell.Enough (retried display cell spec) request w k) :
    cell.Refused (retried display cell spec) request w (k + 1) := by
  set m := retried display cell spec
  set w' := m.worldBefore request w k with hw'
  have hresult : (cell.tryAcquire display w').1 ≠ .ok () := by
    rcases h.fst_outcome with ⟨-, henough⟩ | ⟨herror, -⟩
    · exact absurd henough hnot
    · intro hok
      rw [outcome_retried, ← hw', hok] at herror
      cases herror
  have hresult' : ((cell.limiter w').tryAcquire display (cell.now w')).1 ≠ .ok () := hresult
  obtain ⟨hbounds, heq⟩ := available_tryAcquire display h.bounds
  obtain ⟨hcapacity, hrate, hlast⟩ := tryAcquire_same display (cell.limiter w') (cell.now w')
  rw [if_neg hresult', sub_zero] at heq
  -- the limiter after the refusal, and the clock after the sleep
  have hworld : m.worldBefore request w (k + 1) =
      spec.sleep (m.delay request w k) (cell.tryAcquire display w').2 := by
    rw [worldBefore_succ, outcome_retried, ← hw']
    rfl
  have hlimiter : cell.limiter (m.worldBefore request w (k + 1)) =
      ((cell.limiter w').tryAcquire display (cell.now w')).2 := by
    rw [hworld, hwaits.limiter_sleep]
    exact cell.limiter_set _ _
  have hnow : cell.now (m.worldBefore request w (k + 1)) =
      cell.now w' + (m.delay request w k).asSecs := by
    rw [hworld, hwaits.now_sleep]
    exact congrArg (· + _) (cell.now_set _ _)
  have hdelay := Duration.asSecs_nonneg (m.delay request w k)
  refine ⟨?_, ?_, ?_, ?_⟩
  · rw [hlimiter, hnow]
    exact hbounds.later (le_add_of_nonneg_right hdelay)
  · rw [hlimiter]
    exact hcapacity.trans h.capacity
  · rw [hlimiter]
    exact hrate.trans h.rate
  · have hadd := available_add hlast hbounds.tokens_le hdelay
    rw [hlimiter, hnow, hadd, hcapacity.trans h.capacity, hrate.trans h.rate, heq, h.available,
      slept_succ,
      refill_refill (cell.limiter w).refillRate_pos.le _ _ hdelay]

/-- As long as the tokens do not make up one, the attempts are refused. -/
theorem refused_of_not_enough (hwaits : cell.Waits spec)
    (hbounds : (cell.limiter w).InBounds (cell.now w))
    (h : ∀ i < k, ¬ cell.Enough (retried display cell spec) request w i) :
    cell.Refused (retried display cell spec) request w k := by
  induction k with
  | zero => exact refused_zero hbounds
  | succ k ih =>
    have hprev := ih fun i hi => h i (Nat.lt_succ_of_lt hi)
    exact hprev.succ hwaits (h k (Nat.lt_succ_self k))

theorem Enough.mono {m : RetryMiddleware W} {k k' : ℕ} (h : cell.Enough m request w k)
    (hk : k ≤ k') : cell.Enough m request w k' := by
  have hslept := mul_le_mul_of_nonneg_left (slept_mono m request w hk)
    (cell.limiter w).refillRate_pos.le
  unfold Enough at h ⊢
  linarith

/-- A loop that goes on has been refused for want of a token. -/
theorem not_enough_of_endsAt {last : ℕ} (hwaits : cell.Waits spec)
    (hbounds : (cell.limiter w).InBounds (cell.now w))
    (hends : (retried display cell spec).EndsAt request w last) :
    ∀ i < last, ¬ cell.Enough (retried display cell spec) request w i := by
  intro i
  induction i using Nat.strong_induction_on with
  | _ i ih =>
    intro hi henough
    have hrefused := refused_of_not_enough hwaits hbounds
      fun j hj => ih j hj (hj.trans hi)
    rcases hrefused.fst_outcome with ⟨hok, -⟩ | ⟨-, hnot⟩
    · refine hends.goesOn i hi ?_
      rw [hok]
      trivial
    · exact hnot henough

/-- A refusal ends the loop only if there is no attempt left. -/
theorem enough_or_last_of_endsAt {last : ℕ} (hwaits : cell.Waits spec)
    (hends : (retried display cell spec).EndsAt request w last)
    (hrefused : cell.Refused (retried display cell spec) request w last) :
    cell.Enough (retried display cell spec) request w last ∨ last + 1 = spec.maxAttempts := by
  have hmax : (retried display cell spec).maxAttempts = spec.maxAttempts := rfl
  have hlt := hends.lt
  rcases hrefused.fst_outcome with ⟨-, henough⟩ | ⟨herror, -⟩
  · exact .inl henough
  · rcases hends.ends with hfinal | hle
    · have hretries : (retried display cell spec).predicate
          ((cell.limiter w).rateLimitExceeded display) = true := hwaits.retries _
      rw [herror, IsFinal, hretries] at hfinal
      cases hfinal
    · exact .inr (by omega)

/-- **Retrying after the rate limiter.**  A retry middleware around a limiter lets the request
through if the tokens there are and those refilled in all the time it may sleep make up one, and
otherwise fails with the error of the limiter.  It asks until the tokens do make up one or there is
no attempt left, and no longer.  In particular, if there are two attempts and the first delay is
long enough to refill a token, every request passes. -/
theorem processRequest_retried (hwaits : cell.Waits spec)
    (hbounds : (cell.limiter w).InBounds (cell.now w)) :
    let m := spec.wrap (cell.middleware display)
    ((m.processRequest request w).1 = .ok request ∧
        cell.Enough m request w (spec.maxAttempts - 1) ∨
      (m.processRequest request w).1 =
          .error ((cell.limiter w).rateLimitExceeded display) ∧
        ¬ cell.Enough m request w (spec.maxAttempts - 1)) ∧
    (∃ last, (m.logged.processRequest request (w, [])).2.2 = m.events request w last ∧
      (∀ i < last, ¬ cell.Enough m request w i) ∧
      (cell.Enough m request w last ∨ last + 1 = spec.maxAttempts)) ∧
    (2 ≤ spec.maxAttempts → 1 ≤ (cell.limiter w).refillRate * (m.delay request w 0).asSecs →
      (m.processRequest request w).1 = .ok request) := by
  intro m
  have hmax : m.maxAttempts = spec.maxAttempts := rfl
  obtain ⟨last, hends, -⟩ := exists_endsAt m request w
  have hlt := hends.lt
  have hbefore := not_enough_of_endsAt hwaits hbounds hends
  have hrefused := refused_of_not_enough hwaits hbounds hbefore
  have hlast := enough_or_last_of_endsAt hwaits hends hrefused
  have hresult : (m.processRequest request w).1 = .ok request ∧
        cell.Enough m request w (spec.maxAttempts - 1) ∨
      (m.processRequest request w).1 =
          .error ((cell.limiter w).rateLimitExceeded display) ∧
        ¬ cell.Enough m request w (spec.maxAttempts - 1) := by
    rw [hends.processRequest_eq]
    rcases hrefused.fst_outcome with ⟨hok, henough⟩ | ⟨herror, hnot⟩
    · exact .inl ⟨hok, henough.mono (by omega)⟩
    · rcases hlast with henough | heq
      · exact absurd henough hnot
      · refine .inr ⟨herror, ?_⟩
        rw [← heq, Nat.add_sub_cancel]
        exact hnot
  refine ⟨hresult, ⟨last, ?_, hbefore, hlast⟩, fun htwo hdelay => ?_⟩
  · rw [hends.processRequest_logged, List.nil_append]
  · have hfirst : cell.Enough m request w 1 := by
      have hslept : slept m request w 1 = (m.delay request w 0).asSecs := by
        rw [slept_succ]
        exact zero_add _
      have hnonneg := hbounds.available_nonneg
      rw [Enough, hslept]
      linarith
    rcases hresult with ⟨hok, -⟩ | ⟨-, hnot⟩
    · exact hok
    · exact absurd (hfirst.mono (by omega)) hnot

/-- Behind a limiter that is empty and gets ten tokens a second, a delay of 100 ms is enough. -/
theorem processRequest_retried_once :
    let cell : LimiterCell (RateLimiter × Instant) :=
      { now := Prod.snd, limiter := Prod.fst, set := fun l w => (l, w.2),
        limiter_set := fun _ _ => rfl, now_set := fun _ _ => rfl }
    let spec : RetryMiddlewareSpec (RateLimiter × Instant) :=
      { maxAttempts := 2, backoff := .fixed (Duration.ofMillis 100),
        sleep := fun d w => (w.1, w.2 + d.asSecs), nanos := fun _ => 0 }
    let full := (RateLimiterBuilder.new.withCapacity 1).build 0
    ((spec.wrap (cell.middleware fun _ => "10")).processRequest .null
      ((full.tryAcquire (fun _ => "10") 0).2, 0)).1 = .ok .null := by
  intro cell spec full
  have hfull : full.InBounds 0 := ⟨le_rfl, Nat.cast_nonneg _, le_rfl⟩
  have hbounds := (available_tryAcquire (fun _ => "10") hfull).1
  have hrate : (full.tryAcquire (fun _ => "10") 0).2.refillRate = 10 :=
    (tryAcquire_same (fun _ => "10") full 0).2.1
  have hwaits : cell.Waits spec := ⟨fun _ => rfl, fun _ _ => rfl, fun _ _ => rfl⟩
  refine (processRequest_retried hwaits hbounds).2.2 le_rfl ?_
  have hdelay : ((spec.wrap (cell.middleware fun _ => "10")).delay .null
      ((full.tryAcquire (fun _ => "10") 0).2, 0) 0) = 100000000 := rfl
  rw [hdelay]
  show 1 ≤ (full.tryAcquire (fun _ => "10") 0).2.refillRate * Duration.asSecs 100000000
  rw [hrate]
  norm_num [Duration.asSecs]

end LimiterCell

end SweGateway
