import SweGateway.Core.AuthMiddleware
import SweGateway.Core.Equiv.Pipeline

/-!
# The auth middleware guards the router

`AuthMiddleware.Admits` says what the middleware has to find out to let a request through;
`processRequestAction_cases` that it does, and lets the request through as it is, or denies
permission.

In a pipeline, the router is dispatched only if all pre-middleware continue
(`continues_of_router_mem`), and then so does the auth middleware, wherever it stands
(`Continues.split`).  `guards_router` puts the two together.
-/

namespace SweGateway

namespace AuthMiddleware

variable {W : Type} {sdk : AuthSdk} {Req : Type}

/-- In the world `w`, the request has credentials that are authenticated and, if the middleware has
an authorizer, their subject is allowed the permission.  Finding this out leaves the world `w'`. -/
def Admits (auth : AuthMiddleware W sdk Req) (req : Req) (w w' : W) : Prop :=
  ∃ creds w₁ subject claims w₂,
    auth.extractor.extract req w = (some creds, w₁) ∧
    auth.authenticator.authenticate creds w₁ = (.success subject claims, w₂) ∧
    ((auth.authorizer = none ∧ w' = w₂) ∨
      ∃ authorizer permission, auth.authorizer = some authorizer ∧
        auth.requiredPermission = some permission ∧
        authorizer.authorize (context subject) permission w₂ = (.allow, w'))

/-- Every auth middleware is built by one of the two constructors. -/
theorem eq_new_or_eq_withAuthz (auth : AuthMiddleware W sdk Req) :
    (∃ authenticator extractor, auth = new authenticator extractor) ∨
      ∃ authenticator authorizer extractor permission,
        auth = withAuthz authenticator authorizer extractor permission := by
  obtain ⟨authenticator, authorizer, extractor, permission, h⟩ := auth
  cases authorizer with
  | none =>
    cases permission with
    | none => exact .inl ⟨authenticator, extractor, rfl⟩
    | some permission => cases h
  | some authorizer =>
    cases permission with
    | none => cases h
    | some permission => exact .inr ⟨authenticator, authorizer, extractor, permission, rfl⟩

section Outcomes

variable {auth : AuthMiddleware W sdk Req} {Resp : Type} {req : Req} {w w₁ w₂ w₃ : W}
  {creds : sdk.Credentials} {subject : String} {claims : HashMap String String}

theorem denies_without_credentials (hextract : auth.extractor.extract req w = (none, w₁)) :
    auth.processRequestAction Resp req w =
      (.error (.permissionDenied "missing credentials"), w₁) := by
  unfold processRequestAction
  rw [Eff.bind_call hextract]
  rfl

theorem denies_unauthenticated {err : sdk.AuthnError}
    (hextract : auth.extractor.extract req w = (some creds, w₁))
    (hauthn : auth.authenticator.authenticate creds w₁ = (.failure err, w₂)) :
    auth.processRequestAction Resp req w =
      (.error (.permissionDenied ("authentication failed: " ++ sdk.display err)), w₂) := by
  unfold processRequestAction
  rw [Eff.bind_call hextract]
  dsimp only
  rw [pure_bind, Eff.bind_call hauthn]
  rfl

theorem continues_without_authorizer
    (hextract : auth.extractor.extract req w = (some creds, w₁))
    (hauthn : auth.authenticator.authenticate creds w₁ = (.success subject claims, w₂))
    (hauthorizer : auth.authorizer = none) :
    auth.processRequestAction Resp req w = (.ok (.continue req), w₂) := by
  unfold processRequestAction
  rw [Eff.bind_call hextract]
  dsimp only
  rw [pure_bind, Eff.bind_call hauthn]
  dsimp only
  rw [pure_bind, hauthorizer]
  rfl

variable {authorizer : Authorizer W sdk} {permission : Permission}

/-- The authorizer decides about an authenticated subject. -/
theorem authorizer_decides {result : AuthResult sdk}
    (hextract : auth.extractor.extract req w = (some creds, w₁))
    (hauthn : auth.authenticator.authenticate creds w₁ = (.success subject claims, w₂))
    (hauthorizer : auth.authorizer = some authorizer)
    (hpermission : auth.requiredPermission = some permission)
    (hauthz : authorizer.authorize (context subject) permission w₂ = (result, w₃)) :
    auth.processRequestAction Resp req w =
      (match result with
        | .allow => .ok (.continue req)
        | .refuse _ =>
          .error (.permissionDenied ("subject '" ++ subject ++ "' does not have permission '" ++
            permission.name ++ "'")), w₃) := by
  unfold processRequestAction
  rw [Eff.bind_call hextract]
  dsimp only
  rw [pure_bind, Eff.bind_call hauthn]
  dsimp only
  rw [pure_bind, hauthorizer, hpermission]
  dsimp only
  rw [Eff.bind_call hauthz]
  cases result <;> rfl

end Outcomes

/-- The middleware lets the request through as it is, and then it admits it, or denies
permission. -/
theorem processRequestAction_cases (auth : AuthMiddleware W sdk Req) (Resp : Type) (req : Req)
    (w : W) :
    (∃ w', auth.processRequestAction Resp req w = (.ok (.continue req), w') ∧
      auth.Admits req w w') ∨
    ∃ message w',
      auth.processRequestAction Resp req w = (.error (.permissionDenied message), w') := by
  rcases hextract : auth.extractor.extract req w with ⟨_ | creds, w₁⟩
  · exact .inr ⟨_, w₁, denies_without_credentials hextract⟩
  rcases hauthn : auth.authenticator.authenticate creds w₁ with ⟨⟨subject, claims⟩ | err, w₂⟩
  · rcases eq_new_or_eq_withAuthz auth with ⟨_, _, rfl⟩ | ⟨_, authorizer, _, permission, rfl⟩
    · refine .inl ⟨w₂, continues_without_authorizer hextract hauthn rfl, ?_⟩
      exact ⟨creds, w₁, subject, claims, w₂, hextract, hauthn, .inl ⟨rfl, rfl⟩⟩
    · rcases hauthz : authorizer.authorize (context subject) permission w₂ with
        ⟨_ | refusal, w₃⟩
      · refine .inl ⟨w₃, authorizer_decides hextract hauthn rfl rfl hauthz, ?_⟩
        exact ⟨creds, w₁, subject, claims, w₂, hextract, hauthn,
          .inr ⟨authorizer, permission, rfl, rfl, hauthz⟩⟩
      · exact .inr ⟨_, w₃, authorizer_decides hextract hauthn rfl rfl hauthz⟩
  · exact .inr ⟨_, w₂, denies_unauthenticated hextract hauthn⟩

/-- What the middleware hands on is the request it was given, and it has admitted it. -/
theorem admits_of_continue {auth : AuthMiddleware W sdk Req} {Resp : Type} {req req' : Req}
    {w w' : W} (h : auth.processRequestAction Resp req w = (.ok (.continue req'), w')) :
    req' = req ∧ auth.Admits req w w' := by
  rcases auth.processRequestAction_cases Resp req w with ⟨w₁, hok, hadmits⟩ | ⟨_, w₁, herror⟩
  · rw [hok] at h
    cases h
    exact ⟨rfl, hadmits⟩
  · rw [herror] at h
    cases h

/-- `process_request` does the same as `process_request_action`; in particular, it never says that
the middleware has short-circuited. -/
theorem processRequest_eq (auth : AuthMiddleware W sdk Req) (Resp : Type) (req : Req) (w : W) :
    auth.processRequest Resp req w =
      (((auth.processRequestAction Resp req w).1).map fun _ => req,
        (auth.processRequestAction Resp req w).2) := by
  unfold processRequest
  rcases auth.processRequestAction_cases Resp req w with ⟨w', hok, -⟩ | ⟨_, w', herror⟩
  · rw [Eff.bind_of_ok hok, hok]
    rfl
  · rw [Eff.bind_of_error herror, herror]
    rfl

end AuthMiddleware

namespace DefaultPipeline

variable {W Req Resp Err : Type}

/-! ### Where the router stands -/

/-- Stages that all continue do so up to any of them, at it and behind it. -/
theorem Continues.split {k : ℕ} {pre : List (RequestMiddleware W Req Err Resp)} {req req' : Req}
    {w w' : W} {stages : List (Stage Req Resp)} (h : Continues k pre req w req' w' stages) {i : ℕ}
    {mw : RequestMiddleware W Req Err Resp} (hi : pre[i]? = some mw) :
    ∃ req₁ w₁ req₂ w₂ before behind,
      Continues k (pre.take i) req w req₁ w₁ before ∧
      mw.processRequestAction req₁ w₁ = (.ok (.continue req₂), w₂) ∧
      Continues (k + i + 1) (pre.drop (i + 1)) req₂ w₂ req' w' behind ∧
      stages = before ++ .pre (k + i) req₁ :: behind := by
  induction h generalizing i with
  | nil => cases hi
  | @cons k mw' pre req req₁ req' w w₁ w' stages h hrest ih =>
    cases i with
    | zero =>
      obtain rfl : mw' = mw := Option.some.inj hi
      exact ⟨req, w, req₁, w₁, [], stages, .nil k req w, h, hrest, rfl⟩
    | succ i =>
      obtain ⟨req₂, w₂, req₃, w₃, before, behind, hbefore, hmw, hbehind, rfl⟩ := ih hi
      refine ⟨req₂, w₂, req₃, w₃, .pre k req :: before, behind, .cons h hbefore, hmw, ?_, ?_⟩
      · rwa [Nat.add_right_comm k 1 i] at hbehind
      · rw [Nat.add_right_comm k 1 i]
        rfl

theorem Continues.router_not_mem {k : ℕ} {pre : List (RequestMiddleware W Req Err Resp)}
    {req req' r : Req} {w w' : W} {stages : List (Stage Req Resp)}
    (h : Continues k pre req w req' w' stages) : .router r ∉ stages := by
  induction h with
  | nil => exact List.not_mem_nil
  | cons h hrest ih => simpa using ih

theorem Folds.router_not_mem {k : ℕ} {post : List (ResponseMiddleware W Resp Err)} {resp : Resp}
    {w w' : W} {out : Except Err Resp} {stages : List (Stage Req Resp)} {r : Req}
    (h : Folds k post resp w out w' stages) : .router r ∉ stages := by
  induction h with
  | nil => exact List.not_mem_nil
  | cons h hrest ih => simpa using ih
  | fail h => simp

/-- The router is dispatched only if all pre-middleware continue, and on what they hand on. -/
theorem continues_of_router_mem {p : DefaultPipeline W Req Resp Err} {req r : Req} {w w' : W}
    {out : Except Err Resp} {stages : List (Stage Req Resp)}
    (h : Reference p req w out w' stages) (hr : .router r ∈ stages) :
    ∃ w₁ before behind, Continues 0 p.pre req w r w₁ before ∧
      stages = before ++ .router r :: behind := by
  cases h with
  | preFails hi hpre h =>
    rcases List.mem_append.mp hr with hr | hr
    · exact absurd hr hpre.router_not_mem
    · cases List.mem_singleton.mp hr
  | shortCircuits hi hpre h hpost =>
    rcases List.mem_append.mp hr with hr | hr
    · rcases List.mem_append.mp hr with hr | hr
      · exact absurd hr hpre.router_not_mem
      · cases List.mem_singleton.mp hr
    · exact absurd hr hpost.router_not_mem
  | routerFails hpre h =>
    rcases List.mem_append.mp hr with hr | hr
    · exact absurd hr hpre.router_not_mem
    · cases List.mem_singleton.mp hr
      exact ⟨_, _, [], hpre, rfl⟩
  | routes hpre h hpost =>
    rcases List.mem_append.mp hr with hr | hr
    · rcases List.mem_append.mp hr with hr | hr
      · exact absurd hr hpre.router_not_mem
      · cases List.mem_singleton.mp hr
        exact ⟨_, _, _, hpre, List.append_assoc _ _ _⟩
    · exact absurd hr hpost.router_not_mem

end DefaultPipeline

namespace AuthMiddleware

open DefaultPipeline

variable {W : Type} {sdk : AuthSdk} {Req Resp : Type}

/-- **No request is dispatched that was not admitted.**  If the auth middleware is the
pre-middleware `i` and the router is dispatched, the pre-middleware before it have continued with a
request `req₁`, which the auth middleware was invoked on and admitted, and the pre-middleware behind
it have continued from the same request, before the router was dispatched. -/
theorem guards_router (p : DefaultPipeline W Req Resp GatewayError) (i : ℕ)
    (auth : AuthMiddleware W sdk Req) (hi : p.pre[i]? = some (auth.middleware Resp)) (req r : Req)
    (w : W) (hr : .router r ∈ (p.logged.execute req (w, [])).2.2) :
    ∃ req₁ w₁ w₂ w₃ before between behind,
      Continues 0 (p.pre.take i) req w req₁ w₁ before ∧
      auth.Admits req₁ w₁ w₂ ∧
      Continues (i + 1) (p.pre.drop (i + 1)) req₁ w₂ r w₃ between ∧
      (p.logged.execute req (w, [])).2.2 =
        before ++ .pre i req₁ :: between ++ .router r :: behind := by
  have href := (execute_refines p req w _ _ _).mp ⟨rfl, rfl⟩
  obtain ⟨w₃, stages, behind, hpre, hstages⟩ := continues_of_router_mem href hr
  obtain ⟨req₁, w₁, req₂, w₂, before, between, hbefore, hmw, hbetween, rfl⟩ := hpre.split hi
  obtain ⟨rfl, hadmits⟩ := admits_of_continue hmw
  rw [Nat.zero_add] at hbetween hstages
  exact ⟨req₂, w₁, w₂, w₃, before, between, behind, hbefore, hadmits, hbetween, hstages⟩

/-- An SDK whose credentials are tokens. -/
def tokenSdk : AuthSdk where
  Credentials := String
  AuthnError := String
  display := id
  Environment := HashMap String String
  noEnvironment := ∅
  Refusal := Unit

/-- Alice may read, with her token. -/
def aliceReads : AuthMiddleware Unit tokenSdk String :=
  withAuthz
    ⟨fun (creds : String) w => (if creds = "a1" then .success "alice" ∅ else .failure "unknown", w)⟩
    ⟨fun ctx permission w =>
      (if ctx.subject = "alice" ∧ permission.name = "read" then .allow else .refuse (), w)⟩
    ⟨fun req w => (if req = "" then none else some req, w)⟩ ⟨"read"⟩

/-- The auth middleware behind one that leaves requests alone. -/
def alicePipeline : DefaultPipeline Unit String String GatewayError where
  pre := [.ofProcessRequest pure, aliceReads.middleware String]
  router := ⟨pure⟩
  post := []

theorem guards_router_alice :
    ∃ req w w', Stage.pre 1 req ∈ (alicePipeline.logged.execute "a1" ((), [])).2.2 ∧
      aliceReads.Admits req w w' := by
  obtain ⟨req, w, w', -, before, between, behind, -, hadmits, -, hstages⟩ :=
    guards_router alicePipeline 1 aliceReads rfl "a1" "a1" () (by decide)
  refine ⟨req, w, w', ?_, hadmits⟩
  rw [hstages]
  exact List.mem_append_left _ (List.mem_append_right _ List.mem_cons_self)

end AuthMiddleware

end SweGateway
