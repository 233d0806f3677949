import SweGateway.Core.Equiv.Pipeline
import SweGateway.Core.MetricsBridge

/-!
# Metrics bridges do not show

A pipeline with metrics bridges anywhere among its post-middleware answers every request as the
pipeline without them does, and a bridge records what it extracts from the response that the
middleware before it has made, if they have made one (`serveAll_bridged`).

The collector keeps its events next to the world of the other stages (`recorder`), so that the two
pipelines can be compared.
-/

namespace SweGateway

namespace DefaultPipeline

/-- Executes the requests one after another. -/
def serveAll {W Req Resp Err : Type} (p : DefaultPipeline W Req Resp Err) :
    List Req → W → List (Except Err Resp) × W
  | [], w => ([], w)
  | req :: reqs, w =>
    let (result, w) := p.execute req w
    let (results, w) := serveAll p reqs w
    (result :: results, w)

end DefaultPipeline

namespace MetricsResponseMiddleware

open DefaultPipeline

variable {W : Type}

/-- A collector that keeps the events, next to a world that it leaves alone. -/
def recorder (W : Type) : MetricsCollector (W × List MetricFields) where
  recordCompletion provider model status latencySecs inputTokens outputTokens w :=
    (w.1, w.2 ++ [{ provider, model, status, latencySecs, inputTokens, outputTokens }])

/-- A post-middleware of a pipeline with metrics bridges. -/
inductive PostStage (W : Type) where
  | middleware (mw : ResponseMiddleware W Value GatewayError)
  | bridge (extractor : FieldExtractor)

/-- A pipeline some of whose post-middleware are metrics bridges. -/
structure BridgedPipeline (W : Type) where
  pre : List (RequestMiddleware W Value GatewayError Value)
  router : Router W Value Value GatewayError
  post : List (PostStage W)

/-- The middleware that is not a bridge. -/
def PostStage.plain : PostStage W → Option (ResponseMiddleware W Value GatewayError)
  | .middleware mw => some mw
  | .bridge _ => none

/-- The stage, next to the events of the bridges. -/
def PostStage.bridged : PostStage W → ResponseMiddleware (W × List MetricFields) Value GatewayError
  | .middleware mw => { processResponse := fun resp => .logged [] (mw.processResponse resp) }
  | .bridge extractor => toResponseMiddleware { collector := recorder W, extractor }

/-- The middleware without the bridges. -/
def plainPost (post : List (PostStage W)) : List (ResponseMiddleware W Value GatewayError) :=
  post.filterMap PostStage.plain

namespace BridgedPipeline

/-- The pipeline without its bridges. -/
def plain (p : BridgedPipeline W) : DefaultPipeline W Value Value GatewayError where
  pre := p.pre
  router := p.router
  post := plainPost p.post

/-- The pipeline with its bridges, which record to one collector. -/
def bridged (p : BridgedPipeline W) :
    DefaultPipeline (W × List MetricFields) Value Value GatewayError where
  pre := p.pre.map fun mw =>
    { processRequest := fun req => .logged [] (mw.processRequest req)
      processRequestAction := fun req => .logged [] (mw.processRequestAction req) }
  router := { dispatch := fun req => .logged [] (p.router.dispatch req) }
  post := p.post.map PostStage.bridged

end BridgedPipeline

/-- What a stage records, given what the stages before it have made of the response. -/
def extracted : Option (PostStage W) → Except GatewayError Value → List MetricFields
  | some (.bridge extractor), .ok resp => (extractor resp).toList
  | _, _ => []

/-- What is recorded at stage `k` of the post-middleware, which begin with the response. -/
def recordedAt (post : List (PostStage W)) (resp : Value) (w : W) (k : ℕ) : List MetricFields :=
  extracted post[k]? (postLoop (plainPost (post.take k)) resp w).1

/-- What is recorded by the post-middleware. -/
def recorded (post : List (PostStage W)) (resp : Value) (w : W) : List MetricFields :=
  (List.range post.length).flatMap (recordedAt post resp w)

/-- What is recorded while a request is executed. -/
def recordedFor (p : BridgedPipeline W) (req : Value) (w : W) : List MetricFields :=
  match execute { p.plain with post := [] } req w with
  | (.ok resp, w') => recorded p.post resp w'
  | (.error _, _) => []

/-- What is recorded while the requests are executed one after another. -/
def recordedForAll (p : BridgedPipeline W) : List Value → W → List MetricFields
  | [], _ => []
  | req :: reqs, w => recordedFor p req w ++ recordedForAll p reqs (p.plain.execute req w).2

/-! ### The post-middleware -/

theorem postLoop_cons_of_ok {mw : ResponseMiddleware W Value GatewayError}
    {post : List (ResponseMiddleware W Value GatewayError)} {resp resp' : Value} {w w' : W}
    (h : mw.processResponse resp w = (.ok resp', w')) :
    postLoop (mw :: post) resp w = postLoop post resp' w' := by
  unfold postLoop
  rw [List.foldlM_cons]
  exact Eff.bind_of_ok h

theorem postLoop_cons_of_error {mw : ResponseMiddleware W Value GatewayError}
    {post : List (ResponseMiddleware W Value GatewayError)} {resp : Value} {w w' : W}
    {e : GatewayError} (h : mw.processResponse resp w = (.error e, w')) :
    postLoop (mw :: post) resp w = (.error e, w') := by
  unfold postLoop
  rw [List.foldlM_cons]
  exact Eff.bind_of_error h

theorem recorded_cons (stage : PostStage W) (post : List (PostStage W)) (resp : Value) (w : W) :
    recorded (stage :: post) resp w = recordedAt (stage :: post) resp w 0 ++
      (List.range post.length).flatMap fun k => recordedAt (stage :: post) resp w (k + 1) := by
  rw [recorded, List.length_cons, List.range_succ_eq_map, List.flatMap_cons, List.flatMap_map]

/-- A middleware that is not a bridge passes its response to the others. -/
theorem recorded_middleware {mw : ResponseMiddleware W Value GatewayError}
    (post : List (PostStage W)) {resp resp' : Value} {w w' : W}
    (h : mw.processResponse resp w = (.ok resp', w')) :
    recorded (.middleware mw :: post) resp w = recorded post resp' w' := by
  rw [recorded_cons]
  refine congrArg (fun f => (List.range post.length).flatMap f) (funext fun k => ?_)
  have hloop : postLoop (plainPost (.middleware mw :: post.take k)) resp w = _ :=
    postLoop_cons_of_ok h
  exact congrArg (fun r => extracted post[k]? r.1) hloop

theorem recorded_middleware_error {mw : ResponseMiddleware W Value GatewayError}
    (post : List (PostStage W)) {resp : Value} {w w' : W} {e : GatewayError}
    (h : mw.processResponse resp w = (.error e, w')) :
    recorded (.middleware mw :: post) resp w = [] := by
  rw [recorded_cons]
  refine List.flatMap_eq_nil_iff.mpr fun k _ => ?_
  have hloop : postLoop (plainPost (.middleware mw :: post.take k)) resp w = _ :=
    postLoop_cons_of_error h
  refine (congrArg (fun r => extracted post[k]? r.1) hloop).trans ?_
  cases post[k]? with
  | none => rfl
  | some stage => cases stage <;> rfl

/-- A bridge records, and leaves the response to the others. -/
theorem recorded_bridge (extractor : FieldExtractor) (post : List (PostStage W)) (resp : Value)
    (w : W) :
    recorded (.bridge extractor :: post) resp w =
      (extractor resp).toList ++ recorded post resp w := by
  rw [recorded_cons]
  rfl

/-- A bridge. -/
theorem processResponse_bridge (extractor : FieldExtractor) (resp : Value) (w : W)
    (log : List MetricFields) :
    (PostStage.bridge extractor).bridged.processResponse resp (w, log) =
      (.ok resp, w, log ++ (extractor resp).toList) := by
  show MetricsResponseMiddleware.processResponse { collector := recorder W, extractor } resp _ = _
  simp only [processResponse]
  cases extractor resp with
  | none =>
    rw [Option.toList_none, List.append_nil]
    rfl
  | some fields => rfl

/-- **The loop over the post-middleware**, with and without bridges. -/
theorem postLoop_bridged (post : List (PostStage W)) :
    ∀ (resp : Value) (w : W) (log : List MetricFields),
      postLoop (post.map PostStage.bridged) resp (w, log) =
        ((postLoop (plainPost post) resp w).1, (postLoop (plainPost post) resp w).2,
          log ++ recorded post resp w) := by
  induction post with
  | nil =>
    intro resp w log
    rw [recorded, List.length_nil, List.range_zero, List.flatMap_nil, List.append_nil]
    rfl
  | cons stage post ih =>
    intro resp w log
    rw [List.map_cons]
    cases stage with
    | middleware mw =>
      have hplain : plainPost (.middleware mw :: post) = mw :: plainPost post := rfl
      rw [hplain]
      rcases Eff.ok_or_error (mw.processResponse resp) w with ⟨resp', w', h⟩ | ⟨e, w', h⟩
      · have hlogged : (PostStage.middleware mw).bridged.processResponse resp (w, log) =
            (.ok resp', w', log) := by
          have h' := Eff.logged_nil_apply (mw.processResponse resp) w log
          rwa [h] at h'
        rw [postLoop_cons_of_ok hlogged, postLoop_cons_of_ok h, ih, recorded_middleware post h]
      · have hlogged : (PostStage.middleware mw).bridged.processResponse resp (w, log) =
            (.error e, w', log) := by
          have h' := Eff.logged_nil_apply (mw.processResponse resp) w log
          rwa [h] at h'
        rw [postLoop_cons_of_error hlogged, postLoop_cons_of_error h,
          recorded_middleware_error post h, List.append_nil]
    | bridge extractor =>
      have hplain : plainPost (.bridge extractor :: post) = plainPost post := rfl
      rw [hplain, postLoop_cons_of_ok (processResponse_bridge extractor resp w log), ih,
        recorded_bridge, List.append_assoc]

/-! ### The pipeline -/

/-- The pre-middleware leave the log alone. -/
theorem preLoop_bridged (p : BridgedPipeline W) (state : MiddlewareAction Value Value) :
    preLoop p.bridged.pre state = .logged [] (preLoop p.plain.pre state) := by
  unfold BridgedPipeline.bridged BridgedPipeline.plain
  dsimp only
  generalize p.pre = pre
  induction pre generalizing state with
  | nil =>
    rw [List.map_nil, preLoop_nil, preLoop_nil]
    exact (Eff.logged_nil_pure _).symm
  | cons mw pre ih =>
    cases state with
    | shortCircuit resp =>
      rw [preLoop_shortCircuit, preLoop_shortCircuit]
      exact (Eff.logged_nil_pure _).symm
    | «continue» req =>
      rw [List.map_cons, preLoop_cons, preLoop_cons, Eff.logged_nil_bind]
      congr 1
      exact funext ih

/-- So do all stages before the post-middleware. -/
theorem execute_nil_bridged (p : BridgedPipeline W) (req : Value) :
    execute { p.bridged with post := [] } req =
      .logged [] (execute { p.plain with post := [] } req) := by
  rw [execute_eq, execute_eq, Eff.logged_nil_bind]
  refine congrArg₂ (· >>= ·) (preLoop_bridged p _) (funext fun state => ?_)
  cases state with
  | shortCircuit resp => exact (Eff.logged_nil_pure _).symm
  | «continue» req =>
    show (Eff.logged [] (p.router.dispatch req) >>= pure) =
      Eff.logged [] (p.router.dispatch req >>= pure)
    rw [bind_pure, bind_pure]

/-- A pipeline makes a response, and then its post-middleware go over it. -/
theorem execute_eq_bind {W : Type} (p : DefaultPipeline W Value Value GatewayError) (req : Value) :
    p.execute req = execute { p with post := [] } req >>= postLoop p.post := by
  rw [execute_eq, execute_eq, bind_assoc]
  congr 1
  funext state
  cases state with
  | shortCircuit resp =>
    show postLoop p.post resp = (pure resp >>= postLoop p.post)
    rw [pure_bind]
  | «continue» req =>
    show (p.router.dispatch req >>= postLoop p.post) =
      (p.router.dispatch req >>= pure) >>= postLoop p.post
    rw [bind_pure]

/-- **One request**, with and without bridges. -/
theorem execute_bridged (p : BridgedPipeline W) (req : Value) (w : W) (log : List MetricFields) :
    p.bridged.execute req (w, log) = ((p.plain.execute req w).1, (p.plain.execute req w).2,
      log ++ recordedFor p req w) := by
  have hstart : execute { p.bridged with post := [] } req (w, log) = _ :=
    (congrFun (execute_nil_bridged p req) (w, log)).trans (Eff.logged_nil_apply _ w log)
  rw [execute_eq_bind, execute_eq_bind p.plain, recordedFor]
  rcases Eff.ok_or_error (execute { p.plain with post := [] } req) w with
    ⟨resp, w', h⟩ | ⟨e, w', h⟩
  · rw [h] at hstart ⊢
    rw [Eff.bind_of_ok hstart, Eff.bind_of_ok h]
    exact postLoop_bridged p.post resp w' log
  · rw [h] at hstart ⊢
    rw [Eff.bind_of_error hstart, Eff.bind_of_error h, List.append_nil]

/-- **Metrics bridges do not show.**  Over any sequence of requests, a pipeline with metrics bridges
anywhere among its post-middleware gives the responses and errors, and leaves the world, of the
pipeline without them.  What is recorded is what each bridge extracts from the response that the
middleware before it has made, in this order, and nothing for a response that was not made. -/
theorem serveAll_bridged (p : BridgedPipeline W) (reqs : List Value) (w : W)
    (log : List MetricFields) :
    p.bridged.serveAll reqs (w, log) = ((p.plain.serveAll reqs w).1, (p.plain.serveAll reqs w).2,
      log ++ recordedForAll p reqs w) := by
  induction reqs generalizing w log with
  | nil =>
    rw [recordedForAll, List.append_nil]
    rfl
  | cons req reqs ih =>
    simp only [serveAll]
    rw [execute_bridged]
    dsimp only
    rw [ih, recordedForAll, List.append_assoc]

end MetricsResponseMiddleware

end SweGateway
