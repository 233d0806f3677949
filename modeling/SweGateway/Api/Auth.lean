import SweGateway.Lib.HashMap

/-!
# Authentication and authorization (`api/auth.rs`)

The traits `Authenticator` and `Authorizer` and their types come from an SDK.  What the gateway uses
of it is here: `AuthSdk` has the types it passes on without looking into them, and the traits are
their methods.  Like the middleware, the implementations of the traits may read and change the world
`W`.
-/

namespace SweGateway

/-- The types of the SDK that the gateway passes on. -/
structure AuthSdk where
  Credentials : Type
  /-- Why an authentication failed. -/
  AuthnError : Type
  /-- The error as it is displayed. -/
  display : AuthnError → String
  /-- The map of an `AuthContext` that describes its environment. -/
  Environment : Type
  /-- The empty map. -/
  noEnvironment : Environment
  /-- What an authorizer says if it does not say `Allow`. -/
  Refusal : Type

/-- A permission, by its name. -/
structure Permission where
  name : String
  deriving DecidableEq, Repr

/-- What an authenticator says about credentials. -/
inductive AuthnResult (sdk : AuthSdk) where
  | success (subject : String) (claims : HashMap String String)
  | failure (err : sdk.AuthnError)

/-- Who wants to do what. -/
structure AuthContext (sdk : AuthSdk) where
  subject : String
  resource : String
  action : String
  environment : sdk.Environment

/-- What an authorizer says about a context and a permission. -/
inductive AuthResult (sdk : AuthSdk) where
  | allow
  | refuse (refusal : sdk.Refusal)

structure Authenticator (W : Type) (sdk : AuthSdk) where
  authenticate : sdk.Credentials → W → AuthnResult sdk × W

structure Authorizer (W : Type) (sdk : AuthSdk) where
  authorize : AuthContext sdk → Permission → W → AuthResult sdk × W

/-- Extract credentials from a pipeline request type. -/
structure CredentialExtractor (W : Type) (sdk : AuthSdk) (Req : Type) where
  extract : Req → W → Option sdk.Credentials × W

/-- Claims returned on successful authentication. -/
structure AuthClaims where
  /-- The authenticated subject (user id / service account). -/
  subject : String
  /-- Provider-supplied claims (email, roles, etc.). -/
  claims : HashMap String String

end SweGateway
