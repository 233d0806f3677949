import Mathlib.Data.Int.Notation

/-!
# The error and result types shared by every gateway (`api/types.rs`)

`GatewayError` carries the message the source formats; `GatewayResult` is Rust's
`Result<T, GatewayError>`.
-/

namespace SweGateway

/-- A reading of the wall clock. -/
abbrev DateTime := ℤ

/-- Standard error codes for gateway operations. -/
inductive GatewayErrorCode where
  | internal
  | invalidInput
  | notFound
  | alreadyExists
  | permissionDenied
  | timeout
  | unavailable
  | configuration
  deriving DecidableEq, Repr

/-- The error type for gateway operations.  `ioError` holds the text of the operating system's
error. -/
inductive GatewayError where
  | connectionFailed (message : String)
  | authenticationFailed (message : String)
  | notFound (message : String)
  | conflict (message : String)
  | validationError (message : String)
  | rateLimitExceeded (message : String)
  | timeout (message : String)
  | notSupported (message : String)
  | ioError (message : String)
  | serializationError (message : String)
  | backendError (message : String)
  | internalError (message : String)
  | alreadyExists (message : String)
  | permissionDenied (message : String)
  | unavailable (message : String)
  | configuration (message : String)
  deriving DecidableEq, Repr

/-- Result type for gateway operations. -/
abbrev GatewayResult (T : Type) := Except GatewayError T

namespace GatewayError

/-- Create a new gateway error from a code and message. -/
def new (code : GatewayErrorCode) (message : String) : GatewayError :=
  match code with
  | .internal => .internalError message
  | .invalidInput => .validationError message
  | .notFound => .notFound message
  | .alreadyExists => .alreadyExists message
  | .permissionDenied => .permissionDenied message
  | .timeout => .timeout message
  | .unavailable => .unavailable message
  | .configuration => .configuration message

/-- Create an internal error. -/
def internal (message : String) : GatewayError := new .internal message

/-- Whether the error is worth retrying: the connection, rate limit, timeout and availability
errors. -/
def isRetryable : GatewayError → Bool
  | .connectionFailed _ | .rateLimitExceeded _ | .timeout _ | .unavailable _ => true
  | _ => false

end GatewayError

instance {T : Type} [DecidableEq T] : DecidableEq (GatewayResult T) := fun
  | .ok a, .ok b => decidable_of_iff (a = b) (by simp)
  | .error a, .error b => decidable_of_iff (a = b) (by simp)
  | .ok _, .error _ => isFalse (by simp)
  | .error _, .ok _ => isFalse (by simp)

end SweGateway
