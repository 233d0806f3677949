import SweGateway.Core.Equiv.Pipeline

/-!
# Nested pipelines

A pipeline whose router runs another pipeline is as good as the one pipeline that has the stages of
both, those of the inner one in the middle, unless a pre-middleware of the outer one short-circuits:
in one pipeline, that does not skip the post-middleware of the inner one.

The stages of the nested pipelines log themselves by their positions in the one pipeline
(`loggedNested`), so that the two logs can be compared (`nested_flattens`).
-/

namespace SweGateway.DefaultPipeline

variable {W Req Resp Err : Type}

/-- The pipeline `pre`, `post` whose router runs the pipeline `inner` on the request. -/
def nested (pre : List (RequestMiddleware W Req Err Resp)) (inner : DefaultPipeline W Req Resp Err)
    (post : List (ResponseMiddleware W Resp Err)) : DefaultPipeline W Req Resp Err where
  pre := pre
  router := PipelineRouter fun req => inner.execute req
  post := post

/-- The one pipeline with the stages of both. -/
def flattened (pre : List (RequestMiddleware W Req Err Resp))
    (inner : DefaultPipeline W Req Resp Err) (post : List (ResponseMiddleware W Resp Err)) :
    DefaultPipeline W Req Resp Err where
  pre := pre ++ inner.pre
  router := inner.router
  post := inner.post ++ post

/-- The nested pipelines with stages that log their invocations, numbered as in the one pipeline. -/
def loggedNested (pre : List (RequestMiddleware W Req Err Resp))
    (inner : DefaultPipeline W Req Resp Err) (post : List (ResponseMiddleware W Resp Err)) :
    DefaultPipeline (W × List (Stage Req Resp)) Req Resp Err :=
  nested (logPre 0 pre)
    { pre := logPre pre.length inner.pre
      router := inner.logged.router
      post := logPost 0 inner.post }
    (logPost inner.post.length post)

/-- On the request, a pre-middleware is reached that short-circuits. -/
def ShortCircuits (pre : List (RequestMiddleware W Req Err Resp)) (req : Req) (w : W) : Prop :=
  ∃ i mw req' w₁ stages resp w₂, pre[i]? = some mw ∧
    Continues 0 (pre.take i) req w req' w₁ stages ∧
    mw.processRequestAction req' w₁ = (.ok (.shortCircuit resp), w₂)

/-! ### The loops -/

theorem postLoop_append (post post' : List (ResponseMiddleware W Resp Err)) (resp : Resp) :
    postLoop (post ++ post') resp = postLoop post resp >>= postLoop post' := by
  unfold postLoop
  exact List.foldlM_append

theorem logPost_append (k : ℕ) (post post' : List (ResponseMiddleware W Resp Err)) :
    (logPost k (post ++ post') : List (ResponseMiddleware (W × List (Stage Req Resp)) Resp Err)) =
      logPost k post ++ logPost (k + post.length) post' := by
  simp [logPost, List.zipIdx_append]

/-- What comes after the pre-middleware of the inner pipeline. -/
theorem finish_flattened (pre : List (RequestMiddleware W Req Err Resp))
    (inner : DefaultPipeline W Req Resp Err) (post : List (ResponseMiddleware W Resp Err))
    (state : MiddlewareAction Req Resp) :
    finish (flattened pre inner post) state = finish inner state >>= postLoop post := by
  cases state with
  | shortCircuit resp => exact postLoop_append inner.post post resp
  | «continue» req =>
    show (inner.router.dispatch req >>= postLoop (inner.post ++ post)) =
      (inner.router.dispatch req >>= postLoop inner.post) >>= postLoop post
    rw [bind_assoc]
    congr 1
    funext resp
    exact postLoop_append inner.post post resp

/-- **Flattening**, where the loop over the outer pre-middleware does not short-circuit. -/
theorem execute_nested {pre : List (RequestMiddleware W Req Err Resp)}
    {inner : DefaultPipeline W Req Resp Err} {post : List (ResponseMiddleware W Resp Err)}
    {req : Req} {w : W}
    (hpre : ∀ resp w', preLoop pre (.continue req) w ≠ (.ok (.shortCircuit resp), w')) :
    (nested pre inner post).execute req w = (flattened pre inner post).execute req w := by
  have hflat : (flattened pre inner post).execute req = preLoop pre (.continue req) >>= fun state =>
      preLoop inner.pre state >>= fun state => finish inner state >>= postLoop post := by
    rw [execute_eq]
    show preLoop (pre ++ inner.pre) (.continue req) >>= _ = _
    rw [preLoop_append, bind_assoc, funext (finish_flattened pre inner post)]
  rw [hflat, execute_eq]
  show (preLoop pre (.continue req) >>= finish (nested pre inner post)) w = _
  rcases Eff.ok_or_error (preLoop pre (.continue req)) w with ⟨state, w', h⟩ | ⟨e, w', h⟩
  · rw [Eff.bind_of_ok h, Eff.bind_of_ok h]
    cases state with
    | shortCircuit resp => exact absurd h (hpre resp w')
    | «continue» req' =>
      show (inner.execute req' >>= postLoop post) w' = _
      rw [execute_eq, bind_assoc]
  · rw [Eff.bind_of_error h, Eff.bind_of_error h]

/-- A loop that short-circuits has reached a stage that does. -/
theorem exists_shortCircuit_of_preLoop {pre : List (RequestMiddleware W Req Err Resp)} :
    ∀ {k : ℕ} {req : Req} {resp : Resp} {w w' : W},
      preLoop pre (.continue req) w = (.ok (.shortCircuit resp), w') →
      ∃ i mw req' w₁ stages resp w₂, pre[i]? = some mw ∧
        Continues k (pre.take i) req w req' w₁ stages ∧
        mw.processRequestAction req' w₁ = (.ok (.shortCircuit resp), w₂) := by
  induction pre with
  | nil =>
    intro k req resp w w' h
    rw [preLoop_nil, Eff.pure_apply] at h
    cases h
  | cons mw pre ih =>
    intro k req resp w w' h
    rw [preLoop_cons] at h
    obtain ⟨action, w₁, hmw, h⟩ := Eff.bind_eq_ok h
    cases action with
    | shortCircuit resp₁ => exact ⟨0, mw, req, w, [], resp₁, w₁, rfl, .nil k req w, hmw⟩
    | «continue» req₁ =>
      obtain ⟨i, mw', req', w₂, stages, resp', w₃, hi, hc, hmw'⟩ := ih (k := k + 1) h
      exact ⟨i + 1, mw', req', w₂, _, resp', w₃, hi, .cons hmw hc, hmw'⟩

/-- Nor does the loop over the stages that log themselves short-circuit. -/
theorem preLoop_logPre_ne {pre : List (RequestMiddleware W Req Err Resp)} {req : Req} {w : W}
    (h : ∀ resp w', preLoop pre (.continue req) w ≠ (.ok (.shortCircuit resp), w')) (k : ℕ)
    (log : List (Stage Req Resp)) (resp : Resp) (w' : W × List (Stage Req Resp)) :
    preLoop (logPre k pre) (.continue req) (w, log) ≠ (.ok (.shortCircuit resp), w') := by
  intro hloop
  have herase := erases_preLoop pre k (.continue req) w log
  rw [hloop] at herase
  exact h resp w'.1 herase.symm

/-! ### The pipelines -/

theorem erases_nested (pre : List (RequestMiddleware W Req Err Resp))
    (inner : DefaultPipeline W Req Resp Err) (post : List (ResponseMiddleware W Resp Err))
    (req : Req) :
    Eff.Erases ((loggedNested pre inner post).execute req)
      ((nested pre inner post).execute req) := by
  refine erases_of_stages (erases_preLoop pre 0) (fun req' => ?_) (erases_postLoop post _) req
  exact erases_of_stages (erases_preLoop inner.pre _) (fun _ => Eff.erases_logged _ _)
    (erases_postLoop inner.post 0) req'

/-- The stages of the one pipeline log themselves as those of the nested ones do. -/
theorem logged_flattened (pre : List (RequestMiddleware W Req Err Resp))
    (inner : DefaultPipeline W Req Resp Err) (post : List (ResponseMiddleware W Resp Err)) :
    (flattened pre inner post).logged = flattened (logPre 0 pre)
      { pre := logPre pre.length inner.pre
        router := inner.logged.router
        post := logPost 0 inner.post }
      (logPost inner.post.length post) := by
  simp only [logged, flattened, logPre_append, logPost_append, Nat.zero_add]

/-- **Nested pipelines flatten.**  Unless a pre-middleware of the outer pipeline short-circuits on
the request, the nested pipelines return what the one pipeline returns, leave the same world and
invoke the same stages in the same order, each on the same request or response. -/
theorem nested_flattens (pre : List (RequestMiddleware W Req Err Resp))
    (inner : DefaultPipeline W Req Resp Err) (post : List (ResponseMiddleware W Resp Err))
    (req : Req) (w : W) (hpre : ¬ ShortCircuits pre req w) :
    Eff.Erases ((loggedNested pre inner post).execute req) ((nested pre inner post).execute req) ∧
      (nested pre inner post).execute req w = (flattened pre inner post).execute req w ∧
      (loggedNested pre inner post).execute req (w, []) =
        (flattened pre inner post).logged.execute req (w, []) := by
  have hloop : ∀ resp w', preLoop pre (.continue req) w ≠ (.ok (.shortCircuit resp), w') :=
    fun resp w' h => hpre (exists_shortCircuit_of_preLoop h)
  refine ⟨erases_nested pre inner post req, execute_nested hloop, ?_⟩
  rw [logged_flattened]
  exact execute_nested (preLoop_logPre_ne hloop 0 [])

/-- A middleware that adds to the request. -/
def adds (text : String) : RequestMiddleware Unit String String String :=
  .ofProcessRequest fun req => pure (req ++ text)

/-- A pipeline that short-circuits with the request it gets. -/
def echoes : DefaultPipeline Unit String String String where
  pre :=
    [{ processRequest := pure
       processRequestAction := fun req => pure (.shortCircuit req) }]
  router := { dispatch := fun _ => .fail "not dispatched" }
  post := []

/-- The outer middleware runs, and then the inner one short-circuits. -/
theorem nested_flattens_echoes :
    (nested [adds "b"] echoes []).execute "a" () =
        (flattened [adds "b"] echoes []).execute "a" () ∧
      (nested [adds "b"] echoes []).execute "a" () = (.ok "ab", ()) := by
  have hpre : ¬ ShortCircuits [adds "b"] "a" () := by
    rintro ⟨i, mw, req', w₁, stages, resp, w₂, hi, -, h⟩
    obtain rfl : mw = adds "b" := List.mem_singleton.mp (List.mem_of_getElem? hi)
    cases h
  obtain ⟨-, hsame, -⟩ := nested_flattens [adds "b"] echoes [] "a" () hpre
  exact ⟨hsame, rfl⟩

end SweGateway.DefaultPipeline
