import SweGateway.Api.Json
import SweGateway.Api.Middleware
import SweGateway.Api.Types
import SweGateway.Lib.F64

/-!
# The metrics bridge (`core/metrics_bridge.rs`)

`MetricsResponseMiddleware` extracts fields from each response and records them.  What the collector
does with them happens in the world.
-/

namespace SweGateway

/-- Extracted metric fields that the bridge knows how to record. -/
structure MetricFields where
  /-- Identifier for the upstream provider. -/
  provider : String
  model : String
  /-- Status label. -/
  status : String
  latencySecs : F64
  /-- Number of prompt tokens consumed. -/
  inputTokens : UInt64
  /-- Number of completion tokens produced. -/
  outputTokens : UInt64
  deriving DecidableEq, Repr

/-- What the bridge delegates to. -/
structure MetricsCollector (W : Type) where
  recordCompletion : (provider model status : String) → F64 → (inputTokens outputTokens : UInt64) →
    W → W

/-- Pulls the fields out of a response, if it has enough data. -/
abbrev FieldExtractor := Value → Option MetricFields

/-- A response middleware that records the fields extracted from each response. -/
structure MetricsResponseMiddleware (W : Type) where
  collector : MetricsCollector W
  extractor : FieldExtractor

namespace MetricsResponseMiddleware

variable {W : Type}

def processResponse (m : MetricsResponseMiddleware W) (response : Value) :
    Eff W GatewayError Value := do
  if let some fields := m.extractor response then
    Eff.modify (m.collector.recordCompletion fields.provider fields.model fields.status
      fields.latencySecs fields.inputTokens fields.outputTokens)
  return response

/-- The bridge as a response middleware. -/
def toResponseMiddleware (m : MetricsResponseMiddleware W) :
    ResponseMiddleware W Value GatewayError where
  processResponse := m.processResponse

end MetricsResponseMiddleware

end SweGateway
