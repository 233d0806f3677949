import SweGateway.Api.Middleware

/-!
# The default pipeline (`core/pipeline.rs`)

`DefaultPipeline.execute` runs the pre-middleware until one of them short-circuits, then the router
unless one did, then the post-middleware.
-/

namespace SweGateway

/-- Router — dispatches a request to produce a response. -/
structure Router (W Req Resp Err : Type) where
  dispatch : Req → Eff W Err Resp

/-- A router that calls a handler. -/
def PipelineRouter {W Req Resp Err : Type} (handler : Req → Eff W Err Resp) :
    Router W Req Resp Err where
  dispatch request := handler request

/-- Standard pre → route → post pipeline. -/
structure DefaultPipeline (W Req Resp Err : Type) where
  pre : List (RequestMiddleware W Req Err Resp)
  router : Router W Req Resp Err
  post : List (ResponseMiddleware W Resp Err)

namespace DefaultPipeline

variable {W Req Resp Err : Type}

/-- Executes a request through the stages. -/
def execute (p : DefaultPipeline W Req Resp Err) (request : Req) : Eff W Err Resp := do
  -- run pre-middleware with short-circuit support
  let mut state : MiddlewareAction Req Resp := .continue request
  for mw in p.pre do
    match state with
    | .continue req => state ← mw.processRequestAction req
    | .shortCircuit _ => break
  -- if short-circuited, skip the router; otherwise dispatch normally
  let mut response ← match state with
    | .shortCircuit resp => pure resp
    | .continue req => p.router.dispatch req
  -- post-middleware always runs, even on short-circuited responses
  for mw in p.post do
    response ← mw.processResponse response
  return response

end DefaultPipeline

end SweGateway
