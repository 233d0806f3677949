import SweGateway.Core.Retry
import Mathlib.Data.ENat.Lattice

/-!
# What the retry loop does

A call of the retry middleware is compared with the sequence of calls that it would make if it
retried forever: `m.outcome request w i` is the result of call `i` and the world after it, where a
sleep of `m.delay request w i` follows each call.  The inner middleware is stateful, so the sequence
depends on the world `w` it starts in.

`EndsAt` and `processRequest_exact` say where the middleware stops in this sequence.  What it does
on the way is observed by `m.logged`, which records each call of the inner middleware and each
sleep, and does the same as `m` otherwise.  That `m.logged` is a retry middleware too makes the log
a part of its world: the run lemma `EndsAt.attemptsThen_eq`, which is about any retry middleware,
gives the log as well.
-/

namespace SweGateway.RetryMiddleware

variable {W : Type}

/-- What can be observed of a retry middleware. -/
inductive RetryEvent where
  /-- The inner middleware is called on the request. -/
  | call (request : Value)
  | sleep (delay : Duration)

/-- The middleware, recording its calls and its sleeps. -/
def logged (m : RetryMiddleware W) : RetryMiddleware (W × List RetryEvent) where
  maxAttempts := m.maxAttempts
  maxAttempts_pos := m.maxAttempts_pos
  backoff := m.backoff
  predicate := m.predicate
  sleep delay w := (m.sleep delay w.1, w.2 ++ [.sleep delay])
  nanos w := m.nanos w.1
  inner :=
    { processRequest := fun req => .logged [.call req] (m.inner.processRequest req)
      processRequestAction := fun req => .logged [.call req] (m.inner.processRequestAction req) }

/-- `attempts`, with `trailing` where the source has the error that follows the loop. -/
def attemptsThen (m : RetryMiddleware W)
    (trailing : Option GatewayError → Eff W GatewayError Value) (request : Value) :
    (left attempt : ℕ) → (lastError : Option GatewayError) → Eff W GatewayError Value
  | 0, _, lastError => trailing lastError
  | left + 1, attempt, _ => fun w =>
    match m.inner.processRequest request w with
    | (.ok response, w') => (.ok response, w')
    | (.error err, w') =>
      if m.maxAttempts ≤ attempt + 1 ∨ m.predicate err = false then (.error err, w')
      else
        let delay := m.backoff.computeDelay (m.nanos w') attempt
        attemptsThen m trailing request left (attempt + 1) (some err) (m.sleep delay w')

/-! ### The sequence of calls -/

section Calls

variable (m : RetryMiddleware W) (request : Value) (w : W)

/-- The world before call `i`. -/
def worldBefore : ℕ → W
  | 0 => w
  | i + 1 =>
    let w' := (m.inner.processRequest request (worldBefore i)).2
    m.sleep (m.backoff.computeDelay (m.nanos w') i) w'

/-- The result of call `i`, and the world after it. -/
def outcome (i : ℕ) : Except GatewayError Value × W :=
  m.inner.processRequest request (m.worldBefore request w i)

/-- The delay between the calls `i` and `i + 1`. -/
def delay (i : ℕ) : Duration :=
  m.backoff.computeDelay (m.nanos (m.outcome request w i).2) i

/-- The result is not one to retry after: a response, or an error that is not retryable. -/
def IsFinal : Except GatewayError Value → Prop
  | .ok _ => True
  | .error err => m.predicate err = false

/-- The index of the first final result, infinite if there is none. -/
noncomputable def firstFinal : ℕ∞ :=
  ⨅ (i : ℕ) (_ : m.IsFinal (m.outcome request w i).1), (i : ℕ∞)

/-- Call `last` ends the loop: it is the first with a final result, or the last that is allowed. -/
structure EndsAt (last : ℕ) : Prop where
  lt : last < m.maxAttempts
  goesOn : ∀ i < last, ¬ m.IsFinal (m.outcome request w i).1
  ends : m.IsFinal (m.outcome request w last).1 ∨ m.maxAttempts ≤ last + 1

/-- What is observed before call `i`. -/
def eventsBefore (i : ℕ) : List RetryEvent :=
  (List.range i).flatMap fun i => [.call request, .sleep (m.delay request w i)]

/-- What is observed up to call `last`. -/
def events (last : ℕ) : List RetryEvent := m.eventsBefore request w last ++ [.call request]

theorem worldBefore_succ (i : ℕ) :
    m.worldBefore request w (i + 1) =
      m.sleep (m.delay request w i) (m.outcome request w i).2 :=
  rfl

theorem eventsBefore_succ (i : ℕ) :
    m.eventsBefore request w (i + 1) =
      m.events request w i ++ [.sleep (m.delay request w i)] := by
  rw [events, eventsBefore, List.range_succ, List.flatMap_append, List.flatMap_singleton,
    eventsBefore, List.append_assoc]
  rfl

/-! The calls of the recording middleware are the calls of the middleware, recorded. -/

theorem worldBefore_logged (es : List RetryEvent) (i : ℕ) :
    m.logged.worldBefore request (w, es) i =
      (m.worldBefore request w i, es ++ m.eventsBefore request w i) := by
  induction i with
  | zero => exact Prod.ext rfl (List.append_nil es).symm
  | succ i ih =>
    have hcall : m.logged.outcome request (w, es) i =
        ((m.outcome request w i).1, (m.outcome request w i).2,
          es ++ m.eventsBefore request w i ++ [.call request]) := by
      rw [outcome, ih]
      rfl
    rw [worldBefore_succ, worldBefore_succ, delay, hcall, eventsBefore_succ, events]
    simp only [← List.append_assoc]
    rfl

theorem outcome_logged (es : List RetryEvent) (i : ℕ) :
    m.logged.outcome request (w, es) i =
      ((m.outcome request w i).1, (m.outcome request w i).2, es ++ m.events request w i) := by
  rw [outcome, worldBefore_logged, events, ← List.append_assoc]
  rfl

end Calls

/-! ### The loop -/

section Loop

variable {m : RetryMiddleware W} (trailing : Option GatewayError → Eff W GatewayError Value)
  {request : Value} {w : W}

theorem attempts_eq_attemptsThen (left attempt : ℕ) (lastError : Option GatewayError) :
    m.attempts request left attempt lastError =
      m.attemptsThen
        (fun lastError =>
          .fail (lastError.getD (.internal "retry loop exited without result or error")))
        request left attempt lastError := by
  induction left generalizing attempt lastError with
  | zero => rfl
  | succ left ih =>
    funext w
    rcases hcall : m.inner.processRequest request w with ⟨_ | _, _⟩ <;>
      simp only [attempts, attemptsThen, hcall, ih]

theorem attemptsThen_of_ok {w w' : W} {left attempt : ℕ} {lastError : Option GatewayError}
    {response : Value} (h : m.inner.processRequest request w = (.ok response, w')) :
    m.attemptsThen trailing request (left + 1) attempt lastError w = (.ok response, w') := by
  simp only [attemptsThen, h]

theorem attemptsThen_of_error {w w' : W} {left attempt : ℕ} {lastError : Option GatewayError}
    {err : GatewayError} (h : m.inner.processRequest request w = (.error err, w')) :
    m.attemptsThen trailing request (left + 1) attempt lastError w =
      if m.maxAttempts ≤ attempt + 1 ∨ m.predicate err = false then (.error err, w')
      else m.attemptsThen trailing request left (attempt + 1) (some err)
        (m.sleep (m.backoff.computeDelay (m.nanos w') attempt) w') := by
  simp only [attemptsThen, h]

/-- Call `last` ends the loop: its result is final, or there is no attempt left. -/
theorem attemptsThen_of_last {last left : ℕ} {lastError : Option GatewayError}
    (h : m.IsFinal (m.outcome request w last).1 ∨ m.maxAttempts ≤ last + 1) :
    m.attemptsThen trailing request (left + 1) last lastError (m.worldBefore request w last) =
      m.outcome request w last := by
  rcases hcall : m.outcome request w last with ⟨err | response, w'⟩
  · rw [hcall] at h
    rw [attemptsThen_of_error trailing hcall]
    exact if_pos h.symm
  · exact attemptsThen_of_ok trailing hcall

/-- A call that does not end the loop is followed by the sleep and the next call. -/
theorem attemptsThen_succ (left : ℕ) {attempt : ℕ} (lastError : Option GatewayError)
    (h : ¬ m.IsFinal (m.outcome request w attempt).1) (hlt : attempt + 1 < m.maxAttempts) :
    ∃ err, m.attemptsThen trailing request (left + 1) attempt lastError
        (m.worldBefore request w attempt) =
      m.attemptsThen trailing request left (attempt + 1) (some err)
        (m.worldBefore request w (attempt + 1)) := by
  rcases hcall : m.outcome request w attempt with ⟨err | response, w'⟩
  · rw [hcall] at h
    have hgo : ¬ (m.maxAttempts ≤ attempt + 1 ∨ m.predicate err = false) := by
      rintro (hle | herr)
      · omega
      · exact h herr
    refine ⟨err, ?_⟩
    rw [attemptsThen_of_error trailing hcall, if_neg hgo, worldBefore_succ, delay, hcall]
  · rw [hcall] at h
    exact absurd trivial h

/-- As long as no result is final, the loop goes on. -/
theorem attemptsThen_run {attempt : ℕ} (hlt : attempt < m.maxAttempts)
    (h : ∀ i < attempt, ¬ m.IsFinal (m.outcome request w i).1) :
    ∃ lastError, m.attemptsThen trailing request m.maxAttempts 0 none w =
      m.attemptsThen trailing request (m.maxAttempts - attempt) attempt lastError
        (m.worldBefore request w attempt) := by
  induction attempt with
  | zero => exact ⟨none, rfl⟩
  | succ attempt ih =>
    obtain ⟨lastError, hrun⟩ := ih (by omega) fun i hi => h i (by omega)
    obtain ⟨left, hleft⟩ : ∃ left, m.maxAttempts - attempt = left + 1 :=
      ⟨m.maxAttempts - attempt - 1, by omega⟩
    obtain ⟨err, hsucc⟩ :=
      attemptsThen_succ trailing left lastError (h attempt (by omega)) hlt
    refine ⟨some err, ?_⟩
    rw [hrun, hleft, hsucc, show m.maxAttempts - (attempt + 1) = left by omega]

/-- The loop returns what the call returns that ends it, whatever follows the loop. -/
theorem EndsAt.attemptsThen_eq {last : ℕ} (h : m.EndsAt request w last) :
    m.attemptsThen trailing request m.maxAttempts 0 none w = m.outcome request w last := by
  obtain ⟨lastError, hrun⟩ := attemptsThen_run trailing h.lt h.goesOn
  obtain ⟨left, hleft⟩ : ∃ left, m.maxAttempts - last = left + 1 :=
    ⟨m.maxAttempts - last - 1, by have := h.lt; omega⟩
  rw [hrun, hleft, attemptsThen_of_last trailing h.ends]

/-- So does the middleware, where an error follows the loop. -/
theorem EndsAt.processRequest_eq {last : ℕ} (h : m.EndsAt request w last) :
    m.processRequest request w = m.outcome request w last := by
  rw [processRequest, attempts_eq_attemptsThen]
  exact h.attemptsThen_eq _

/-- Recording does not change where the loop ends. -/
theorem EndsAt.logged {last : ℕ} (h : m.EndsAt request w last) (es : List RetryEvent) :
    m.logged.EndsAt request (w, es) last where
  lt := h.lt
  goesOn i hi := by
    rw [outcome_logged]
    exact h.goesOn i hi
  ends := by
    rw [outcome_logged]
    exact h.ends

/-- The recording middleware returns the same, and has recorded the calls up to the last. -/
theorem EndsAt.processRequest_logged {last : ℕ} (h : m.EndsAt request w last)
    (es : List RetryEvent) :
    m.logged.processRequest request (w, es) =
      ((m.outcome request w last).1, (m.outcome request w last).2,
        es ++ m.events request w last) := by
  rw [(h.logged es).processRequest_eq, outcome_logged]

end Loop

/-! ### Where the loop ends -/

section FirstFinal

variable {m : RetryMiddleware W} {request : Value} {w : W}

theorem le_firstFinal {n : ℕ} (h : ∀ i < n, ¬ m.IsFinal (m.outcome request w i).1) :
    (n : ℕ∞) ≤ m.firstFinal request w := by
  refine le_iInf₂ fun i hi => Nat.cast_le.mpr ?_
  by_contra hlt
  exact h i (not_le.mp hlt) hi

theorem firstFinal_eq {k : ℕ} (hk : m.IsFinal (m.outcome request w k).1)
    (h : ∀ i < k, ¬ m.IsFinal (m.outcome request w i).1) : m.firstFinal request w = k :=
  le_antisymm (iInf₂_le k hk) (le_firstFinal h)

/-- The loop ends after as many calls as are allowed, or at the first final result. -/
theorem exists_endsAt (m : RetryMiddleware W) (request : Value) (w : W) :
    ∃ last, m.EndsAt request w last ∧
      ((last + 1 : ℕ) : ℕ∞) = min (m.maxAttempts : ℕ∞) (1 + m.firstFinal request w) := by
  classical
  have hpos := m.maxAttempts_pos
  by_cases hex : ∃ k, k + 1 < m.maxAttempts ∧ m.IsFinal (m.outcome request w k).1
  · obtain ⟨hlt, hfinal⟩ := Nat.find_spec hex
    set last := Nat.find hex
    have hbefore : ∀ i < last, ¬ m.IsFinal (m.outcome request w i).1 := by
      intro i hi hfin
      exact Nat.find_min hex hi ⟨by omega, hfin⟩
    refine ⟨last, ⟨by omega, hbefore, .inl hfinal⟩, ?_⟩
    rw [firstFinal_eq hfinal hbefore, add_comm 1, min_eq_right]
    · exact Nat.cast_succ last
    · exact_mod_cast hlt.le
  · have hbefore : ∀ i < m.maxAttempts - 1, ¬ m.IsFinal (m.outcome request w i).1 :=
      fun i hi hfin => hex ⟨i, by omega, hfin⟩
    refine ⟨m.maxAttempts - 1, ⟨by omega, hbefore, .inr (by omega)⟩, ?_⟩
    rw [Nat.sub_add_cancel hpos, min_eq_left]
    calc (m.maxAttempts : ℕ∞) = ((1 + (m.maxAttempts - 1) : ℕ) : ℕ∞) := by
          rw [Nat.add_sub_cancel' hpos]
      _ = 1 + ((m.maxAttempts - 1 : ℕ) : ℕ∞) := by rw [Nat.cast_add, Nat.cast_one]
      _ ≤ 1 + m.firstFinal request w := by gcongr; exact le_firstFinal hbefore

end FirstFinal

/-- **Exactness of the retry loop.** In every world, the middleware makes `last + 1` calls of the
inner middleware, the smaller of `maxAttempts` and one more than the index of the first final
result, each on the request.  It returns what the last of them returned, and sleeps between them
only, with the delays `0`, `1` and so on in this order.  What follows the loop is never reached. -/
theorem processRequest_exact (m : RetryMiddleware W) (request : Value) :
    Eff.Erases (m.logged.processRequest request) (m.processRequest request) ∧
      (∀ trailing,
        m.attemptsThen trailing request m.maxAttempts 0 none = m.processRequest request) ∧
      ∀ w, ∃ last : ℕ,
        ((last + 1 : ℕ) : ℕ∞) = min (m.maxAttempts : ℕ∞) (1 + m.firstFinal request w) ∧
        m.processRequest request w = m.outcome request w last ∧
        (m.logged.processRequest request (w, [])).2.2 = m.events request w last := by
  refine ⟨fun w es => ?_, fun trailing => ?_, fun w => ?_⟩
  · obtain ⟨last, h, -⟩ := exists_endsAt m request w
    rw [h.processRequest_logged, h.processRequest_eq]
  · funext w
    obtain ⟨last, h, -⟩ := exists_endsAt m request w
    rw [h.attemptsThen_eq, h.processRequest_eq]
  · obtain ⟨last, h, hcount⟩ := exists_endsAt m request w
    refine ⟨last, hcount, h.processRequest_eq, ?_⟩
    rw [h.processRequest_logged, List.nil_append]

end SweGateway.RetryMiddleware
