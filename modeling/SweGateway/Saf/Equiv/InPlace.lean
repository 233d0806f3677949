import SweGateway.Saf.Equiv.Expand
import SweGateway.Saf.ExpandInPlace

/-!
# What expanding in place leaves

`expandEnvInPlace_spec` says what becomes of every field, whether `expand_env` succeeds or fails: a
failure leaves the fields that were expanded before it expanded.
-/

namespace SweGateway

open Place

/-- A field before and after it is expanded. -/
inductive Expanded (env : Env) : Option String → Option String → Prop
  | untouched {field : Option String} :
    (∀ val ∈ field, ¬refStart <:+: val.toList) → Expanded env field field
  | replaced {val text : String} :
    refStart <:+: val.toList → expandEnvVars env val = .ok text →
      Expanded env (some val) (some text)

/-- The field cannot be expanded. -/
def FailsToExpand (env : Env) (field : Option String) (e : ConfigError) : Prop :=
  ∃ val, field = some val ∧ refStart <:+: val.toList ∧ expandEnvVars env val = .error e

theorem expanded_of_ok {env : Env} {field field' : Option String}
    (h : expandOpt env field = .ok field') : Expanded env field field' := by
  cases field with
  | none =>
    obtain rfl : none = field' := Except.ok.inj h
    exact .untouched nofun
  | some val =>
    rw [expandOpt_some] at h
    split at h
    · next href =>
      cases htext : expandEnvVars env val with
      | error e =>
        rw [htext] at h
        cases h
      | ok text =>
        rw [htext] at h
        obtain rfl : some text = field' := Except.ok.inj h
        exact .replaced href htext
    · next hno =>
      obtain rfl : some val = field' := Except.ok.inj h
      refine .untouched fun v hv => ?_
      cases hv
      exact hno

theorem failsToExpand_of_error {env : Env} {field : Option String} {e : ConfigError}
    (h : expandOpt env field = .error e) : FailsToExpand env field e := by
  cases field with
  | none => cases h
  | some val =>
    rw [expandOpt_some] at h
    split at h
    · next href =>
      cases htext : expandEnvVars env val with
      | error e' =>
        rw [htext] at h
        cases h
        exact ⟨val, rfl, href, htext⟩
      | ok text =>
        rw [htext] at h
        cases h
    · cases h

namespace GatewayConfig

/-- The sensitive fields, in the order in which they are expanded. -/
def sensitivePlaces : List (Place GatewayConfig (Option String)) :=
  [connectionStringPlace, passwordPlace, accessKeyPlace, secretKeyPlace, baseUrlPlace, apiKeyPlace,
    paymentSecretKeyPlace, webhookSecretPlace]

theorem get_sensitivePlaces : sensitivePlaces.map (·.get) = sensitive := rfl

theorem expandEnvInPlace_eq (env : Env) :
    expandEnvInPlace env = rewriteAll (expandOpt env) sensitivePlaces := by
  simp only [expandEnvInPlace, sensitivePlaces, rewriteAll, bind_pure_unit]

/-- No two of the sensitive fields overlap. -/
theorem pairwise_apart_sensitivePlaces : sensitivePlaces.Pairwise Apart := by
  simp only [sensitivePlaces, List.pairwise_cons, List.forall_mem_cons]
  repeat' apply And.intro
  all_goals first | exact ⟨fun _ _ => rfl, fun _ _ => rfl⟩ | exact List.Pairwise.nil | exact nofun

theorem insensitive_set {p : Place GatewayConfig (Option String)} (hp : p ∈ sensitivePlaces)
    (x : Option String) (c : GatewayConfig) : (p.set x c).insensitive = c.insensitive := by
  simp only [sensitivePlaces, List.mem_cons, List.not_mem_nil, or_false] at hp
  rcases hp with rfl | rfl | rfl | rfl | rfl | rfl | rfl | rfl <;> rfl

/-- What is left of the configuration `c` where its fields have been expanded up to the first one
that cannot be. -/
def StoppedAt (env : Env) (c c' : GatewayConfig) (e : ConfigError) : Prop :=
  ∃ before field after, sensitive = before ++ field :: after ∧
    (∀ q ∈ before, Expanded env (q c) (q c')) ∧ FailsToExpand env (field c) e ∧
    ∀ q ∈ field :: after, q c' = q c

/-- **Expanding in place** returns `Ok` with every sensitive field expanded, or the error of the
first one of them that cannot be; the fields before that one are expanded then, and it and those
after it are as they were.  The other fields of the configuration are not touched. -/
theorem expandEnvInPlace_spec (env : Env) (c : GatewayConfig) :
    ∃ r c', c.expandEnvInPlace env = (r, c') ∧ c'.insensitive = c.insensitive ∧
      (r = .ok () ∧ (∀ field ∈ sensitive, Expanded env (field c) (field c')) ∨
        ∃ e, r = .error e ∧ StoppedAt env c c' e) := by
  have hapart := pairwise_apart_sensitivePlaces
  rw [expandEnvInPlace_eq]
  rcases hrun : rewriteAll (expandOpt env) sensitivePlaces c with ⟨r, c'⟩
  have hframe := rewriteAll_frame (expandOpt env) (fun p hp x c => insensitive_set hp x c) c
  rw [hrun] at hframe
  refine ⟨r, c', rfl, hframe, ?_⟩
  cases r with
  | ok _ =>
    refine .inl ⟨rfl, ?_⟩
    rw [← get_sensitivePlaces, List.forall_mem_map]
    exact fun p hp => expanded_of_ok (rewriteAll_ok hapart hrun p hp)
  | error e =>
    obtain ⟨before, p, after, hps, hbefore, hp, hafter⟩ := rewriteAll_error hapart hrun
    refine .inr ⟨e, rfl, before.map (·.get), p.get, after.map (·.get), ?_, ?_, ?_, ?_⟩
    · rw [← get_sensitivePlaces, hps, List.map_append, List.map_cons]
    · rw [List.forall_mem_map]
      exact fun q hq => expanded_of_ok (hbefore q hq)
    · exact failsToExpand_of_error hp
    · rw [← List.map_cons, List.forall_mem_map]
      exact hafter

/-- A configuration with two references. -/
def twoReferences (connectionString : String) : GatewayConfig :=
  { database := { (default : DatabaseConfig) with
      connectionString := some connectionString
      password := some "${B}" } }

/-- The second reference cannot be expanded, and the first one has been. -/
theorem expandEnvInPlace_twoReferences :
    (twoReferences "${A}").expandEnvInPlace (singleEnv "A" "x") =
        (.error (.envVar "B"), twoReferences "x") ∧ twoReferences "x" ≠ twoReferences "${A}" := by
  have hfirst : expandOpt (singleEnv "A" "x") (some "${A}") = .ok (some "x") := by decide +kernel
  have hsecond : expandOpt (singleEnv "A" "x") (some "${B}") = .error (.envVar "B") := by
    decide +kernel
  constructor
  · rw [expandEnvInPlace, Eff.bind_of_ok (rewrite_of_ok hfirst),
      Eff.bind_of_error (rewrite_of_error hsecond)]
    rfl
  · intro h
    have := congrArg (fun c : GatewayConfig => c.database.connectionString) h
    exact absurd this (by decide)

/-! ### Without what a failure leaves -/

/-- What expanding in place makes of the configuration is `expandEnv`. -/
theorem outcome_expandEnvInPlace (env : Env) (c : GatewayConfig) :
    outcome (c.expandEnvInPlace env) = c.expandEnv env := by
  rw [expandEnvInPlace_eq]
  refine outcome_rewrite_bind fun connectionString => ?_
  refine outcome_rewrite_bind fun password => ?_
  refine outcome_rewrite_bind fun accessKey => ?_
  refine outcome_rewrite_bind fun secretKey => ?_
  refine outcome_rewrite_bind fun baseUrl => ?_
  refine outcome_rewrite_bind fun apiKey => ?_
  refine outcome_rewrite_bind fun paymentSecretKey => ?_
  exact outcome_rewrite_bind fun webhookSecret => rfl

end GatewayConfig

end SweGateway
