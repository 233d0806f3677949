import SweGateway.Lib.Eff

/-!
# Middleware (`api/middleware.rs`)

A middleware may keep state of its own and talk to the outside; both are in the world `W` that the
computations of `Eff` pass along.  The two methods of `RequestMiddleware` are two fields here, since
a Rust implementation may override the provided one; `RequestMiddleware.ofProcessRequest` is an
implementation that does not.
-/

namespace SweGateway

/-- Action returned by request middleware to control pipeline flow. -/
inductive MiddlewareAction (Req Resp : Type) where
  /-- Continue processing with the (possibly modified) request. -/
  | continue (req : Req)
  /-- Short-circuit the pipeline, returning this response immediately. -/
  | shortCircuit (resp : Resp)
  deriving DecidableEq, Repr

/-- Middleware that intercepts and optionally transforms an inbound request before it reaches the
router. -/
structure RequestMiddleware (W Req Err Resp : Type) where
  /-- Process an inbound request, returning the (possibly modified) request or an error. -/
  processRequest : Req → Eff W Err Req
  /-- Process an inbound request with short-circuit support. -/
  processRequestAction : Req → Eff W Err (MiddlewareAction Req Resp)

namespace RequestMiddleware

variable {W Req Err Resp : Type}

/-- The trait's own `process_request_action`, for a middleware that only implements
`process_request`. -/
def ofProcessRequest (processRequest : Req → Eff W Err Req) : RequestMiddleware W Req Err Resp where
  processRequest := processRequest
  processRequestAction req := do
    let req' ← processRequest req
    return .continue req'

end RequestMiddleware

/-- Middleware that intercepts and optionally transforms an outbound response. -/
structure ResponseMiddleware (W Resp Err : Type) where
  /-- Process an outbound response, returning the (possibly modified) response or an error. -/
  processResponse : Resp → Eff W Err Resp

end SweGateway
