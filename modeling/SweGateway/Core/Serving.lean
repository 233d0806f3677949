import Mathlib.Data.Nat.Notation
import Mathlib.Logic.Function.Basic
import Mathlib.Logic.Relation
import SweGateway.Core.Pipeline

/-!
# A pipeline that serves many requests (`core/pipeline.rs`)

`DefaultPipeline.execute` awaits one stage after another, and a pipeline is shared: while one
execution waits, others go on.  `advance` is the next stage of an execution, and in a `Serving` any
number of executions take their stages in any order over one world.  Between the stages the world
may be changed by whatever else runs in it, as `others` says.

An execution that nobody disturbs is `execute` (`Serving.alone`).
-/

namespace SweGateway

/-- Where the execution of a request stands. -/
inductive Progress (Req Resp Err : Type) where
  /-- Pre-middleware `k` comes next, or the router if there are no more than `k`. -/
  | pre (k : ℕ) (req : Req)
  /-- Post-middleware `k` comes next, if there are more than `k`. -/
  | post (k : ℕ) (resp : Resp)
  | done (result : Except Err Resp)

namespace DefaultPipeline

variable {W Req Resp Err : Type}

/-- What follows pre-middleware `k`. -/
def afterAction (k : ℕ) : Except Err (MiddlewareAction Req Resp) → Progress Req Resp Err
  | .ok (.continue req) => .pre (k + 1) req
  | .ok (.shortCircuit resp) => .post 0 resp
  | .error e => .done (.error e)

/-- What follows the stage before post-middleware `k`. -/
def afterResponse (k : ℕ) : Except Err Resp → Progress Req Resp Err
  | .ok resp => .post k resp
  | .error e => .done (.error e)

/-- The next stage of an execution. -/
def advance (p : DefaultPipeline W Req Resp Err) :
    Progress Req Resp Err → W → Progress Req Resp Err × W
  | .pre k req, w =>
    match p.pre[k]? with
    | some mw => (mw.processRequestAction req w).map (afterAction k) id
    | none => (p.router.dispatch req w).map (afterResponse 0) id
  | .post k resp, w =>
    match p.post[k]? with
    | some mw => (mw.processResponse resp w).map (afterResponse (k + 1)) id
    | none => (.done (.ok resp), w)
  | .done result, w => (.done result, w)

section Advance

variable {p : DefaultPipeline W Req Resp Err} {k : ℕ} {w : W}

theorem advance_pre {mw : RequestMiddleware W Req Err Resp} (h : p.pre[k]? = some mw) (req : Req) :
    p.advance (.pre k req) w =
      (afterAction k (mw.processRequestAction req w).1, (mw.processRequestAction req w).2) := by
  simp only [advance, h]
  rfl

theorem advance_router (h : p.pre[k]? = none) (req : Req) :
    p.advance (.pre k req) w =
      (afterResponse 0 (p.router.dispatch req w).1, (p.router.dispatch req w).2) := by
  simp only [advance, h]
  rfl

theorem advance_post {mw : ResponseMiddleware W Resp Err} (h : p.post[k]? = some mw) (resp : Resp) :
    p.advance (.post k resp) w =
      (afterResponse (k + 1) (mw.processResponse resp w).1, (mw.processResponse resp w).2) := by
  simp only [advance, h]
  rfl

theorem advance_return (h : p.post[k]? = none) (resp : Resp) :
    p.advance (.post k resp) w = (.done (.ok resp), w) := by
  simp only [advance, h]

end Advance

/-- The next stage of the execution is the router. -/
def dispatchesNext (p : DefaultPipeline W Req Resp Err) : Progress Req Resp Err → Bool
  | .pre k _ => decide (p.pre.length ≤ k)
  | .post _ _ => false
  | .done _ => false

end DefaultPipeline

/-- The executions of a pipeline, and which of them have called the router, in the order of the
calls. -/
structure Serving (ι W Req Resp Err : Type) where
  world : W
  executions : ι → Progress Req Resp Err
  dispatched : List ι

namespace Serving

variable {ι W Req Resp Err : Type} [DecidableEq ι]

/-- The next stage of one execution. -/
def step (p : DefaultPipeline W Req Resp Err) (c : Serving ι W Req Resp Err) (i : ι) :
    Serving ι W Req Resp Err :=
  let (progress, world) := p.advance (c.executions i) c.world
  { world
    executions := Function.update c.executions i progress
    dispatched := if p.dispatchesNext (c.executions i) then c.dispatched ++ [i] else c.dispatched }

/-- From one to the other, an execution has advanced, or the world has changed. -/
inductive Step (p : DefaultPipeline W Req Resp Err) (others : W → W → Prop)
    (c : Serving ι W Req Resp Err) : Serving ι W Req Resp Err → Prop
  | stage (i : ι) : Step p others c (c.step p i)
  | world {w : W} (h : others c.world w) : Step p others c { c with world := w }

/-- `c'` can be reached from `c`. -/
def Serves (p : DefaultPipeline W Req Resp Err) (others : W → W → Prop) :
    Serving ι W Req Resp Err → Serving ι W Req Resp Err → Prop :=
  Relation.ReflTransGen (Step p others)

end Serving

end SweGateway
