import SweGateway.Core.Retry
import SweGateway.Core.Equiv.Pipeline

/-!
# When the retry middleware is transparent

`RetryMiddleware` implements `process_request` only.  A pipeline calls `process_request_action`,
which for the wrapper is the trait's default: it calls the wrapped middleware's `process_request`
and always continues.  So the wrapper loses what the wrapped middleware does in its own
`process_request_action`, a short circuit above all.

`ActsByDefault m` says that `m` has no such action: whenever its `process_request_action` succeeds,
it continues with what its `process_request` returns.  `retry_transparent_iff` says that wrapping is
transparent, for a call and for a whole pipeline, exactly for these.
-/

namespace SweGateway.RetryMiddleware

variable {W : Type}

/-- Wherever the middleware's `process_request_action` succeeds, it does what the trait's default
does: it continues with the result of `process_request`. -/
def ActsByDefault (m : RequestMiddleware W Value GatewayError Value) : Prop :=
  ∀ req w action w', m.processRequestAction req w = (.ok action, w') →
    ∃ req', action = .continue req' ∧ m.processRequest req w = (.ok req', w')

/-- Wrapped with any settings, the middleware returns what it returns unwrapped, if that is not a
failure. -/
def TransparentCall (m : RequestMiddleware W Value GatewayError Value) : Prop :=
  ∀ (spec : RetryMiddlewareSpec W) req w action w',
    m.processRequestAction req w = (.ok action, w') →
    (spec.wrap m).toRequestMiddleware.processRequestAction req w = (.ok action, w')

/-- A pipeline with the middleware wrapped, with any settings, does what the pipeline with the
middleware itself does, if that does not make it fail. -/
def TransparentPipeline (m : RequestMiddleware W Value GatewayError Value) : Prop :=
  ∀ (spec : RetryMiddlewareSpec W) pre pre' router post req w,
    (∀ req' w' stages, DefaultPipeline.Continues 0 pre req w req' w' stages →
      ∃ action w'', m.processRequestAction req' w' = (.ok action, w'')) →
    (DefaultPipeline.mk (pre ++ (spec.wrap m).toRequestMiddleware :: pre') router post).execute
        req w
      = (DefaultPipeline.mk (pre ++ m :: pre') router post).execute req w

/-! ### The first attempt -/

theorem attempts_of_ok {m : RetryMiddleware W} {req resp : Value} {w w' : W}
    (h : m.inner.processRequest req w = (.ok resp, w')) (left attempt : ℕ)
    (lastError : Option GatewayError) :
    m.attempts req (left + 1) attempt lastError w = (.ok resp, w') := by
  unfold attempts
  simp only [h]

/-- A first attempt that succeeds is returned. -/
theorem processRequest_of_ok {m : RetryMiddleware W} {req resp : Value} {w w' : W}
    (h : m.inner.processRequest req w = (.ok resp, w')) :
    m.processRequest req w = (.ok resp, w') := by
  have hpos := m.maxAttempts_pos
  obtain ⟨n, hn⟩ : ∃ n, m.maxAttempts = n + 1 := ⟨m.maxAttempts - 1, by omega⟩
  rw [processRequest, hn]
  exact attempts_of_ok h n 0 none

/-- With a single attempt, nothing is retried. -/
theorem processRequest_of_one {m : RetryMiddleware W} (hone : m.maxAttempts = 1) (req : Value)
    (w : W) : m.processRequest req w = m.inner.processRequest req w := by
  rcases Eff.ok_or_error (m.inner.processRequest req) w with ⟨resp, w', h⟩ | ⟨e, w', h⟩
  · rw [processRequest_of_ok h, h]
  · rw [h, processRequest, hone]
    unfold attempts
    simp [h, hone]

/-! ### Calls and pipelines -/

/-- The wrapper of a middleware that acts by default is transparent. -/
theorem transparentCall_of_actsByDefault {m : RequestMiddleware W Value GatewayError Value}
    (hm : ActsByDefault m) : TransparentCall m := by
  intro spec req w action w' h
  obtain ⟨req', rfl, hreq⟩ := hm req w action w' h
  have hretry : (spec.wrap m).processRequest req w = (.ok req', w') := processRequest_of_ok hreq
  exact Eff.bind_of_ok hretry

/-- A wrapper that is transparent for every call is transparent in every pipeline. -/
theorem TransparentCall.pipeline {m : RequestMiddleware W Value GatewayError Value}
    (hm : TransparentCall m) : TransparentPipeline m := by
  intro spec pre pre' router post req w hok
  rw [DefaultPipeline.execute_eq, DefaultPipeline.execute_eq]
  simp only [DefaultPipeline.preLoop_append, bind_assoc]
  rcases Eff.ok_or_error (DefaultPipeline.preLoop pre (.continue req)) w with
    ⟨state, w', h⟩ | ⟨e, w', h⟩
  · rw [Eff.bind_of_ok h, Eff.bind_of_ok h]
    cases state with
    | shortCircuit resp => simp only [DefaultPipeline.preLoop_shortCircuit, pure_bind]; rfl
    | «continue» req' =>
      -- the wrapper is called, and `m` would not fail here
      obtain ⟨stages, hpre⟩ := DefaultPipeline.exists_continues_of_preLoop (k := 0) h
      obtain ⟨action, w'', hmw⟩ := hok req' w' stages hpre
      have hretry := hm spec req' w' action w'' hmw
      rw [DefaultPipeline.preLoop_cons, DefaultPipeline.preLoop_cons, bind_assoc, bind_assoc,
        Eff.bind_of_ok hretry, Eff.bind_of_ok hmw]
      rfl
  · rw [Eff.bind_of_error h, Eff.bind_of_error h]

/-- **Transparency of the retry middleware.** Wrapping a middleware is transparent, for each call
and in each pipeline, exactly if the middleware acts by default. -/
theorem retry_transparent_iff (m : RequestMiddleware W Value GatewayError Value) :
    (TransparentCall m ∧ TransparentPipeline m) ↔ ActsByDefault m := by
  constructor
  · rintro ⟨hcall, -⟩ req w action w' h
    -- a wrapper with one attempt calls `process_request` once
    let spec : RetryMiddlewareSpec W :=
      { maxAttempts := 1, sleep := fun _ w => w, nanos := fun _ => 0 }
    have hwrap := hcall spec req w action w' h
    have hone : (spec.wrap m).processRequest req w = m.processRequest req w :=
      processRequest_of_one rfl req w
    rcases Eff.ok_or_error (m.processRequest req) w with ⟨req', w₁, hreq⟩ | ⟨e, w₁, hreq⟩
    · have hdefault : (spec.wrap m).toRequestMiddleware.processRequestAction req w =
          (.ok (.continue req'), w₁) := Eff.bind_of_ok (hone.trans hreq)
      rw [hwrap] at hdefault
      cases hdefault
      exact ⟨req', rfl, hreq⟩
    · have hdefault : (spec.wrap m).toRequestMiddleware.processRequestAction req w =
          (.error e, w₁) := Eff.bind_of_error (hone.trans hreq)
      rw [hwrap] at hdefault
      cases hdefault
  · intro hm
    have hcall := transparentCall_of_actsByDefault hm
    exact ⟨hcall, hcall.pipeline⟩

/-- A middleware that answers every request itself, and whose `process_request` fails. -/
def cached : RequestMiddleware Unit Value GatewayError Value where
  processRequest _ := .fail (.internal "process_request is not used")
  processRequestAction _ := pure (.shortCircuit (.string "cached"))

/-- The wrapper of a middleware that short-circuits does not return its response. -/
theorem cached_not_transparent : ¬ (TransparentCall cached ∧ TransparentPipeline cached) := by
  rintro ⟨hcall, -⟩
  have h := hcall { sleep := fun _ w => w, nanos := fun _ => 0 } .null () _ () rfl
  cases h

end SweGateway.RetryMiddleware
