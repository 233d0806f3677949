import SweGateway.Api.Auth
import SweGateway.Api.Middleware
import SweGateway.Api.Types

/-!
# The auth middleware (`core/auth_middleware.rs`)

`AuthMiddleware` authenticates every request before it reaches the router, and authorizes it if it
was built by `withAuthz`.  Its fields are private and the two constructors set the authorizer and
the permission together; `configured` says so.
-/

namespace SweGateway

/-- Middleware that authenticates every request, and optionally enforces a permission check. -/
structure AuthMiddleware (W : Type) (sdk : AuthSdk) (Req : Type) where
  authenticator : Authenticator W sdk
  authorizer : Option (Authorizer W sdk)
  extractor : CredentialExtractor W sdk Req
  requiredPermission : Option Permission
  /-- There is an authorizer if and only if a permission is required. -/
  configured : authorizer.isSome = requiredPermission.isSome

namespace AuthMiddleware

variable {W : Type} {sdk : AuthSdk} {Req : Type}

/-- Create an authentication-only middleware (no authorization check). -/
def new (authenticator : Authenticator W sdk) (extractor : CredentialExtractor W sdk Req) :
    AuthMiddleware W sdk Req where
  authenticator := authenticator
  authorizer := none
  extractor := extractor
  requiredPermission := none
  configured := rfl

/-- Create a middleware that authenticates AND enforces a specific permission. -/
def withAuthz (authenticator : Authenticator W sdk) (authorizer : Authorizer W sdk)
    (extractor : CredentialExtractor W sdk Req) (requiredPermission : Permission) :
    AuthMiddleware W sdk Req where
  authenticator := authenticator
  authorizer := some authorizer
  extractor := extractor
  requiredPermission := some requiredPermission
  configured := rfl

/-- The context in which the authorizer is asked about the subject. -/
def context (subject : String) : AuthContext sdk where
  subject := subject
  resource := ""
  action := ""
  environment := sdk.noEnvironment

/-- Lets a request through, or denies it. -/
def processRequestAction (auth : AuthMiddleware W sdk Req) (Resp : Type) (req : Req) :
    Eff W GatewayError (MiddlewareAction Req Resp) := do
  -- extract credentials: if there are none, deny
  let creds ← match ← Eff.call (auth.extractor.extract req) with
    | some creds => pure creds
    | none => Eff.fail (.new .permissionDenied "missing credentials")
  -- authenticate
  let claims : AuthClaims ← match ← Eff.call (auth.authenticator.authenticate creds) with
    | .success subject claims => pure { subject, claims }
    | .failure err =>
      Eff.fail (.new .permissionDenied ("authentication failed: " ++ sdk.display err))
  -- authorize, if configured
  if let (some authorizer, some permission) := (auth.authorizer, auth.requiredPermission) then
    match ← Eff.call (authorizer.authorize (context claims.subject) permission) with
    | .allow => pure ()
    | _ =>
      Eff.fail (.new .permissionDenied ("subject '" ++ claims.subject ++
        "' does not have permission '" ++ permission.name ++ "'"))
  return .continue req

/-- Delegates to `processRequestAction`. -/
def processRequest (auth : AuthMiddleware W sdk Req) (Resp : Type) (req : Req) :
    Eff W GatewayError Req := do
  match ← auth.processRequestAction Resp req with
  | .continue req => pure req
  | .shortCircuit _ => Eff.fail (.new .permissionDenied "auth short-circuit")

/-- The middleware as a stage of a pipeline. -/
def middleware (auth : AuthMiddleware W sdk Req) (Resp : Type) :
    RequestMiddleware W Req GatewayError Resp where
  processRequest := auth.processRequest Resp
  processRequestAction := auth.processRequestAction Resp

end AuthMiddleware

end SweGateway
