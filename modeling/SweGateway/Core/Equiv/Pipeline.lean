import SweGateway.Core.Pipeline
import Mathlib.Data.List.Basic

/-!
# The pipeline and its reference semantics

`Reference p req w out w' stages` says what a pipeline should do, one rule for each way a request
can go: it returns `out`, leaves the world `w'`, and invokes exactly the stages `stages`, in this
order, each on the request or response recorded with it.  It is built from two relations on lists of
stages: `Continues`, for pre-middleware that all continue, and `Folds`, for post-middleware.

`DefaultPipeline.execute` is a loop with a state, a break and early returns.  `execute_refines`
says that it does exactly what the reference semantics says; the stages it invokes are observed by
the pipeline `p.logged`, whose stages record themselves in a log and do the same otherwise.

The proof goes along the lists of stages: `preLoop` and `postLoop` are the two loops,
`preLoop_of_continues` and `postLoop_of_folds` what they do on stages that the two relations
describe.
-/

namespace SweGateway.DefaultPipeline

variable {W Req Resp Err : Type}

/-- The invocation of a stage, numbered from `0` in its list. -/
inductive Stage (Req Resp : Type) where
  | pre (i : ℕ) (req : Req)
  | router (req : Req)
  | post (i : ℕ) (resp : Resp)
  deriving DecidableEq, Repr

/-! ### The reference semantics -/

/-- The pre-middleware `pre`, numbered from `k`, all continue on the request `req` and hand on
`req'`. -/
inductive Continues : ℕ → List (RequestMiddleware W Req Err Resp) → Req → W → Req → W →
    List (Stage Req Resp) → Prop
  | nil (k : ℕ) (req : Req) (w : W) : Continues k [] req w req w []
  | cons {k : ℕ} {mw : RequestMiddleware W Req Err Resp}
    {pre : List (RequestMiddleware W Req Err Resp)} {req req₁ req' : Req} {w w₁ w' : W}
    {stages : List (Stage Req Resp)}
    (h : mw.processRequestAction req w = (.ok (.continue req₁), w₁))
    (hrest : Continues (k + 1) pre req₁ w₁ req' w' stages) :
    Continues k (mw :: pre) req w req' w' (.pre k req :: stages)

/-- The post-middleware `post`, numbered from `k`, folded over the response `resp` up to the first
failure. -/
inductive Folds : ℕ → List (ResponseMiddleware W Resp Err) → Resp → W → Except Err Resp → W →
    List (Stage Req Resp) → Prop
  | nil (k : ℕ) (resp : Resp) (w : W) : Folds k [] resp w (.ok resp) w []
  | cons {k : ℕ} {mw : ResponseMiddleware W Resp Err} {post : List (ResponseMiddleware W Resp Err)}
    {resp resp₁ : Resp} {w w₁ w' : W} {out : Except Err Resp} {stages : List (Stage Req Resp)}
    (h : mw.processResponse resp w = (.ok resp₁, w₁))
    (hrest : Folds (k + 1) post resp₁ w₁ out w' stages) :
    Folds k (mw :: post) resp w out w' (.post k resp :: stages)
  | fail {k : ℕ} {mw : ResponseMiddleware W Resp Err} {post : List (ResponseMiddleware W Resp Err)}
    {resp : Resp} {w w' : W} {e : Err} (h : mw.processResponse resp w = (.error e, w')) :
    Folds k (mw :: post) resp w (.error e) w' [.post k resp]

/-- **The reference semantics** of a pipeline. -/
inductive Reference (p : DefaultPipeline W Req Resp Err) (req : Req) (w : W) :
    Except Err Resp → W → List (Stage Req Resp) → Prop
  /-- The pre-middleware `i` is the first that does not continue, and fails. -/
  | preFails {i : ℕ} {mw : RequestMiddleware W Req Err Resp} {req' : Req} {w₁ w' : W} {e : Err}
    {stages : List (Stage Req Resp)} (hi : p.pre[i]? = some mw)
    (hpre : Continues 0 (p.pre.take i) req w req' w₁ stages)
    (h : mw.processRequestAction req' w₁ = (.error e, w')) :
    Reference p req w (.error e) w' (stages ++ [.pre i req'])
  /-- The pre-middleware `i` is the first that does not continue, and short-circuits. -/
  | shortCircuits {i : ℕ} {mw : RequestMiddleware W Req Err Resp} {req' : Req} {w₁ w₂ w' : W}
    {resp : Resp} {out : Except Err Resp} {stages stages' : List (Stage Req Resp)}
    (hi : p.pre[i]? = some mw) (hpre : Continues 0 (p.pre.take i) req w req' w₁ stages)
    (h : mw.processRequestAction req' w₁ = (.ok (.shortCircuit resp), w₂))
    (hpost : Folds 0 p.post resp w₂ out w' stages') :
    Reference p req w out w' (stages ++ [.pre i req'] ++ stages')
  /-- All pre-middleware continue, and the router fails. -/
  | routerFails {req' : Req} {w₁ w' : W} {e : Err} {stages : List (Stage Req Resp)}
    (hpre : Continues 0 p.pre req w req' w₁ stages)
    (h : p.router.dispatch req' w₁ = (.error e, w')) :
    Reference p req w (.error e) w' (stages ++ [.router req'])
  /-- All pre-middleware continue, and the router responds. -/
  | routes {req' : Req} {w₁ w₂ w' : W} {resp : Resp} {out : Except Err Resp}
    {stages stages' : List (Stage Req Resp)} (hpre : Continues 0 p.pre req w req' w₁ stages)
    (h : p.router.dispatch req' w₁ = (.ok resp, w₂))
    (hpost : Folds 0 p.post resp w₂ out w' stages') :
    Reference p req w out w' (stages ++ [.router req'] ++ stages')

/-! ### Pipelines that log their stages -/

/-- Pre-middleware, numbered from `k`, that logs its invocations. -/
def logPre (k : ℕ) (pre : List (RequestMiddleware W Req Err Resp)) :
    List (RequestMiddleware (W × List (Stage Req Resp)) Req Err Resp) :=
  (pre.zipIdx k).map fun (mw, i) =>
    { processRequest := fun req => .logged [.pre i req] (mw.processRequest req)
      processRequestAction := fun req => .logged [.pre i req] (mw.processRequestAction req) }

/-- Post-middleware, numbered from `k`, that logs its invocations. -/
def logPost (k : ℕ) (post : List (ResponseMiddleware W Resp Err)) :
    List (ResponseMiddleware (W × List (Stage Req Resp)) Resp Err) :=
  (post.zipIdx k).map fun (mw, i) =>
    { processResponse := fun resp => .logged [.post i resp] (mw.processResponse resp) }

/-- The pipeline with stages that log their invocations. -/
def logged (p : DefaultPipeline W Req Resp Err) :
    DefaultPipeline (W × List (Stage Req Resp)) Req Resp Err where
  pre := logPre 0 p.pre
  router := { dispatch := fun req => .logged [.router req] (p.router.dispatch req) }
  post := logPost 0 p.post

/-! ### The loops -/

/-- The loop over the pre-middleware. -/
def preLoop (pre : List (RequestMiddleware W Req Err Resp)) (state : MiddlewareAction Req Resp) :
    Eff W Err (MiddlewareAction Req Resp) :=
  forIn pre state fun mw state =>
    match state with
    | .continue req => do
      let state ← mw.processRequestAction req
      pure (.yield state)
    | .shortCircuit _ => pure (.done state)

/-- The loop over the post-middleware. -/
def postLoop (post : List (ResponseMiddleware W Resp Err)) (response : Resp) : Eff W Err Resp :=
  post.foldlM (fun response mw => mw.processResponse response) response

/-- What follows the loop over the pre-middleware. -/
def finish (p : DefaultPipeline W Req Resp Err) : MiddlewareAction Req Resp → Eff W Err Resp
  | .shortCircuit resp => postLoop p.post resp
  | .continue req => do
    let response ← p.router.dispatch req
    postLoop p.post response

theorem execute_eq (p : DefaultPipeline W Req Resp Err) (request : Req) :
    p.execute request = preLoop p.pre (.continue request) >>= finish p := by
  unfold execute preLoop
  simp only [List.forIn_yield_eq_foldlM, bind_pure, pure_bind, bind_pure_comp]
  congr 1
  funext state
  cases state <;> simp [finish, postLoop]

@[simp] theorem preLoop_nil (state : MiddlewareAction Req Resp) :
    preLoop ([] : List (RequestMiddleware W Req Err Resp)) state = pure state := by
  simp [preLoop]

@[simp] theorem preLoop_shortCircuit (pre : List (RequestMiddleware W Req Err Resp)) (resp : Resp) :
    preLoop pre (.shortCircuit resp) = pure (.shortCircuit resp) := by
  cases pre <;> simp [preLoop]

theorem preLoop_cons (mw : RequestMiddleware W Req Err Resp)
    (pre : List (RequestMiddleware W Req Err Resp)) (req : Req) :
    preLoop (mw :: pre) (.continue req) = mw.processRequestAction req >>= preLoop pre := by
  unfold preLoop
  simp

theorem preLoop_append (pre pre' : List (RequestMiddleware W Req Err Resp)) :
    ∀ state, preLoop (pre ++ pre') state = preLoop pre state >>= preLoop pre' := by
  induction pre with
  | nil =>
    intro state
    rw [preLoop_nil, pure_bind, List.nil_append]
  | cons mw pre ih =>
    intro state
    cases state with
    | shortCircuit resp => simp
    | «continue» req =>
      rw [List.cons_append, preLoop_cons, preLoop_cons, bind_assoc]
      congr 1
      funext state
      exact ih state

/-- A loop that hands on a request has passed stages that all continue. -/
theorem exists_continues_of_preLoop {pre : List (RequestMiddleware W Req Err Resp)} :
    ∀ {k : ℕ} {req req' : Req} {w w' : W},
      preLoop pre (.continue req) w = (.ok (.continue req'), w') →
      ∃ stages, Continues k pre req w req' w' stages := by
  induction pre with
  | nil =>
    intro k req req' w w' h
    rw [preLoop_nil, Eff.pure_apply] at h
    cases h
    exact ⟨_, .nil k req w⟩
  | cons mw pre ih =>
    intro k req req' w w' h
    rw [preLoop_cons] at h
    rcases Eff.ok_or_error (mw.processRequestAction req) w with ⟨action, w₁, hmw⟩ | ⟨e, w₁, hmw⟩
    · rw [Eff.bind_of_ok hmw] at h
      cases action with
      | shortCircuit resp =>
        rw [preLoop_shortCircuit, Eff.pure_apply] at h
        cases h
      | «continue» req₁ =>
        obtain ⟨stages, hrest⟩ := ih (k := k + 1) h
        exact ⟨_, .cons hmw hrest⟩
    · rw [Eff.bind_of_error hmw] at h
      cases h

/-! ### The log changes nothing else -/

theorem logPre_cons (k : ℕ) (mw : RequestMiddleware W Req Err Resp)
    (pre : List (RequestMiddleware W Req Err Resp)) :
    logPre k (mw :: pre) =
      { processRequest := fun req => .logged [.pre k req] (mw.processRequest req)
        processRequestAction := fun req => .logged [.pre k req] (mw.processRequestAction req) } ::
      logPre (k + 1) pre := rfl

theorem logPre_append (k : ℕ) (pre pre' : List (RequestMiddleware W Req Err Resp)) :
    logPre k (pre ++ pre') = logPre k pre ++ logPre (k + pre.length) pre' := by
  simp [logPre, List.zipIdx_append]

theorem logPost_cons (k : ℕ) (mw : ResponseMiddleware W Resp Err)
    (post : List (ResponseMiddleware W Resp Err)) :
    (logPost k (mw :: post) : List (ResponseMiddleware (W × List (Stage Req Resp)) Resp Err)) =
      { processResponse := fun resp => .logged [.post k resp] (mw.processResponse resp) } ::
      logPost (k + 1) post := rfl

theorem erases_preLoop (pre : List (RequestMiddleware W Req Err Resp)) :
    ∀ (k : ℕ) (state : MiddlewareAction Req Resp),
      Eff.Erases (preLoop (logPre k pre) state) (preLoop pre state) := by
  induction pre with
  | nil =>
    intro k state
    show Eff.Erases (preLoop [] state) _
    rw [preLoop_nil, preLoop_nil]
    exact Eff.erases_pure state
  | cons mw pre ih =>
    intro k state
    cases state with
    | shortCircuit resp =>
      rw [preLoop_shortCircuit, preLoop_shortCircuit]
      exact Eff.erases_pure _
    | «continue» req =>
      rw [logPre_cons, preLoop_cons, preLoop_cons]
      exact (Eff.erases_logged _ _).bind (ih (k + 1))

theorem erases_postLoop (post : List (ResponseMiddleware W Resp Err)) :
    ∀ (k : ℕ) (resp : Resp),
      Eff.Erases (postLoop (logPost k post :
          List (ResponseMiddleware (W × List (Stage Req Resp)) Resp Err)) resp)
        (postLoop post resp) := by
  induction post with
  | nil =>
    intro k resp
    exact Eff.erases_pure resp
  | cons mw post ih =>
    intro k resp
    rw [logPost_cons]
    exact (Eff.erases_logged _ _).bind (ih (k + 1))

/-- A pipeline does what another one does if its stages do. -/
theorem erases_of_stages {E : Type} {p : DefaultPipeline (W × List E) Req Resp Err}
    {q : DefaultPipeline W Req Resp Err}
    (hpre : ∀ state, Eff.Erases (preLoop p.pre state) (preLoop q.pre state))
    (hrouter : ∀ req, Eff.Erases (p.router.dispatch req) (q.router.dispatch req))
    (hpost : ∀ resp, Eff.Erases (postLoop p.post resp) (postLoop q.post resp)) (req : Req) :
    Eff.Erases (p.execute req) (q.execute req) := by
  rw [execute_eq, execute_eq]
  refine (hpre (.continue req)).bind fun state => ?_
  cases state with
  | shortCircuit resp => exact hpost resp
  | «continue» req => exact (hrouter req).bind hpost

/-- **The log changes nothing else**: the pipeline with its stages logged does what the pipeline
does. -/
theorem erases_execute (p : DefaultPipeline W Req Resp Err) (req : Req) :
    Eff.Erases (p.logged.execute req) (p.execute req) :=
  erases_of_stages (erases_preLoop p.pre 0) (fun _ => Eff.erases_logged _ _)
    (erases_postLoop p.post 0) req

/-! ### What the loops do -/

/-- **The loop over the pre-middleware** passes stages that continue, each once and in order. -/
theorem preLoop_of_continues {k : ℕ} {pre : List (RequestMiddleware W Req Err Resp)}
    {req req' : Req} {w w' : W} {stages : List (Stage Req Resp)}
    (h : Continues k pre req w req' w' stages)
    (rest : List (RequestMiddleware (W × List (Stage Req Resp)) Req Err Resp))
    (log : List (Stage Req Resp)) :
    preLoop (logPre k pre ++ rest) (.continue req) (w, log) =
      preLoop rest (.continue req') (w', log ++ stages) := by
  induction h generalizing log with
  | nil k req w => simp [logPre]
  | cons h hrest ih =>
    rw [logPre_cons, List.cons_append, preLoop_cons, Eff.bind_of_ok (Eff.logged_apply h), ih]
    simp

/-- **The loop over the post-middleware** folds them up to the first failure. -/
theorem postLoop_of_folds {k : ℕ} {post : List (ResponseMiddleware W Resp Err)} {resp : Resp}
    {w w' : W} {out : Except Err Resp} {stages : List (Stage Req Resp)}
    (h : Folds k post resp w out w' stages) (log : List (Stage Req Resp)) :
    postLoop (logPost k post) resp (w, log) = (out, w', log ++ stages) := by
  induction h generalizing log with
  | nil k resp w =>
    rw [List.append_nil]
    rfl
  | cons h hrest ih =>
    rw [logPost_cons, postLoop, List.foldlM_cons, Eff.bind_of_ok (Eff.logged_apply h)]
    refine (ih _).trans ?_
    simp
  | fail h =>
    rw [logPost_cons, postLoop, List.foldlM_cons, Eff.bind_of_error (Eff.logged_apply h)]

/-- A loop that reaches a stage that does not continue ends there. -/
theorem preLoop_at {p : DefaultPipeline W Req Resp Err} {i : ℕ}
    {mw : RequestMiddleware W Req Err Resp} (hi : p.pre[i]? = some mw) {req req' : Req} {w w' : W}
    {stages : List (Stage Req Resp)} (h : Continues 0 (p.pre.take i) req w req' w' stages) :
    preLoop p.logged.pre (.continue req) (w, []) =
      (Eff.logged [.pre i req'] (mw.processRequestAction req') >>=
        preLoop (logPre (i + 1) (p.pre.drop (i + 1)))) (w', stages) := by
  obtain ⟨hlt, hget⟩ := List.getElem?_eq_some_iff.mp hi
  have hsplit : p.pre = p.pre.take i ++ mw :: p.pre.drop (i + 1) := by
    rw [← hget, List.getElem_cons_drop, List.take_append_drop]
  have hlen : (p.pre.take i).length = i := List.length_take_of_le (Nat.le_of_lt hlt)
  have hlog : p.logged.pre = logPre 0 (p.pre.take i) ++ logPre i (mw :: p.pre.drop (i + 1)) := by
    show logPre 0 p.pre = _
    conv_lhs => rw [hsplit]
    rw [logPre_append, hlen, Nat.zero_add]
  rw [hlog, preLoop_of_continues h, List.nil_append, logPre_cons, preLoop_cons]

/-- A loop over stages that all continue hands on the last request. -/
theorem preLoop_all {p : DefaultPipeline W Req Resp Err} {req req' : Req} {w w' : W}
    {stages : List (Stage Req Resp)} (h : Continues 0 p.pre req w req' w' stages) :
    preLoop p.logged.pre (.continue req) (w, []) = (.ok (.continue req'), w', stages) := by
  have hloop := preLoop_of_continues h [] []
  rw [List.append_nil, preLoop_nil, List.nil_append] at hloop
  exact hloop

/-- The pipeline does what the reference semantics says. -/
theorem execute_of_reference {p : DefaultPipeline W Req Resp Err} {req : Req} {w w' : W}
    {out : Except Err Resp} {stages : List (Stage Req Resp)}
    (h : Reference p req w out w' stages) :
    p.logged.execute req (w, []) = (out, w', stages) := by
  rw [execute_eq]
  cases h with
  | preFails hi hpre h =>
    have hloop := preLoop_at hi hpre
    rw [Eff.bind_of_error (Eff.logged_apply h)] at hloop
    exact Eff.bind_of_error hloop
  | shortCircuits hi hpre h hpost =>
    have hloop := preLoop_at hi hpre
    rw [Eff.bind_of_ok (Eff.logged_apply h), preLoop_shortCircuit, Eff.pure_apply] at hloop
    rw [Eff.bind_of_ok hloop]
    exact postLoop_of_folds hpost _
  | routerFails hpre h =>
    rw [Eff.bind_of_ok (preLoop_all hpre)]
    exact Eff.bind_of_error (Eff.logged_apply h)
  | routes hpre h hpost =>
    rw [Eff.bind_of_ok (preLoop_all hpre)]
    refine (Eff.bind_of_ok (Eff.logged_apply h)).trans ?_
    exact postLoop_of_folds hpost _

/-! ### The reference semantics is total -/

theorem exists_folds (post : List (ResponseMiddleware W Resp Err)) :
    ∀ (k : ℕ) (resp : Resp) (w : W), ∃ out w', ∃ stages : List (Stage Req Resp),
      Folds k post resp w out w' stages := by
  induction post with
  | nil =>
    intro k resp w
    exact ⟨.ok resp, w, [], .nil k resp w⟩
  | cons mw post ih =>
    intro k resp w
    rcases Eff.ok_or_error (mw.processResponse resp) w with ⟨resp₁, w₁, h⟩ | ⟨e, w', h⟩
    · obtain ⟨out, w', stages, hrest⟩ := ih (k + 1) resp₁ w₁
      exact ⟨_, _, _, .cons h hrest⟩
    · exact ⟨_, _, _, .fail h⟩

/-- Pre-middleware either all continue, or there is a first that does not. -/
theorem exists_continues (pre : List (RequestMiddleware W Req Err Resp)) :
    ∀ (k : ℕ) (req : Req) (w : W),
      (∃ req' w' stages, Continues k pre req w req' w' stages) ∨
      ∃ i mw req' w' stages, pre[i]? = some mw ∧
        Continues k (pre.take i) req w req' w' stages ∧
        ∀ req'' w'', mw.processRequestAction req' w' ≠ (.ok (.continue req''), w'') := by
  induction pre with
  | nil =>
    intro k req w
    exact .inl ⟨req, w, [], .nil k req w⟩
  | cons mw pre ih =>
    intro k req w
    by_cases h : ∃ req₁ w₁, mw.processRequestAction req w = (.ok (.continue req₁), w₁)
    · obtain ⟨req₁, w₁, h⟩ := h
      rcases ih (k + 1) req₁ w₁ with ⟨req', w', stages, hall⟩ | ⟨i, m, req', w', stages, hi, hc, hm⟩
      · exact .inl ⟨_, _, _, .cons h hall⟩
      · exact .inr ⟨i + 1, m, req', w', _, hi, .cons h hc, hm⟩
    · push Not at h
      exact .inr ⟨0, mw, req, w, [], rfl, .nil k req w, h⟩

theorem exists_reference (p : DefaultPipeline W Req Resp Err) (req : Req) (w : W) :
    ∃ out w' stages, Reference p req w out w' stages := by
  rcases exists_continues p.pre 0 req w with
    ⟨req', w₁, stages, hpre⟩ | ⟨i, mw, req', w₁, stages, hi, hpre, hmw⟩
  · rcases Eff.ok_or_error (p.router.dispatch req') w₁ with ⟨resp, w₂, h⟩ | ⟨e, w', h⟩
    · obtain ⟨out, w', stages', hpost⟩ : ∃ out w', ∃ stages : List (Stage Req Resp),
          Folds 0 p.post resp w₂ out w' stages := exists_folds p.post 0 resp w₂
      exact ⟨_, _, _, .routes hpre h hpost⟩
    · exact ⟨_, _, _, .routerFails hpre h⟩
  · rcases Eff.ok_or_error (mw.processRequestAction req') w₁ with ⟨action, w₂, h⟩ | ⟨e, w', h⟩
    · cases action with
      | «continue» req'' => exact absurd h (hmw req'' w₂)
      | shortCircuit resp =>
        obtain ⟨out, w', stages', hpost⟩ : ∃ out w', ∃ stages : List (Stage Req Resp),
          Folds 0 p.post resp w₂ out w' stages := exists_folds p.post 0 resp w₂
        exact ⟨_, _, _, .shortCircuits hi hpre h hpost⟩
    · exact ⟨_, _, _, .preFails hi hpre h⟩

/-- **The pipeline refines its reference semantics.** Executing a request returns `out`, leaves the
world `w'` and invokes exactly the stages `stages`, in this order, if and only if the reference
semantics says so. -/
theorem execute_refines (p : DefaultPipeline W Req Resp Err) (req : Req) (w w' : W)
    (out : Except Err Resp) (stages : List (Stage Req Resp)) :
    (p.execute req w = (out, w') ∧ (p.logged.execute req (w, [])).2.2 = stages) ↔
      Reference p req w out w' stages := by
  constructor
  · rintro ⟨hout, hstages⟩
    obtain ⟨out₁, w₁, stages₁, href⟩ := exists_reference p req w
    have hexec := execute_of_reference href
    have herase := erases_execute p req w []
    rw [hexec] at herase hstages
    rw [hout, Prod.mk.injEq] at herase
    obtain ⟨rfl, rfl⟩ := herase
    obtain rfl := hstages
    exact href
  · intro href
    have hexec := execute_of_reference href
    have herase := erases_execute p req w []
    rw [hexec] at herase
    exact ⟨herase.symm, by rw [hexec]⟩

end SweGateway.DefaultPipeline
