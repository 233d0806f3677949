import SweGateway.Lib.TomlText
import SweGateway.Saf.Config

/-!
# Which fields are expanded twice

A text is expanded before it is read, and the sensitive fields are expanded once more after that.
So a value of the environment that looks like a reference becomes one if it ends up in a sensitive
field (`expanded_twice`).

`load_eq_ok_iff` is what loading makes of the configuration `c` that the expanded text is read as:
the other fields are those of `c`, and the sensitive ones are expanded where there is something that
begins a reference.
-/

namespace SweGateway

namespace GatewayConfig

/-- The sensitive fields, in the order in which they are expanded. -/
def sensitive : List (GatewayConfig → Option String) :=
  [(·.database.connectionString), (·.database.password), (·.file.accessKey), (·.file.secretKey),
    (·.http.baseUrl), (·.payment.apiKey), (·.payment.secretKey), (·.payment.webhookSecret)]

/-- The configuration without its sensitive fields. -/
def insensitive (c : GatewayConfig) : GatewayConfig :=
  { c with
    database := { c.database with connectionString := none, password := none }
    file := { c.file with accessKey := none, secretKey := none }
    http := { c.http with baseUrl := none }
    payment := { c.payment with apiKey := none, secretKey := none, webhookSecret := none } }

end GatewayConfig

/-- A configuration is made up of its sensitive fields and the others. -/
theorem GatewayConfig.eq_of_insensitive {c c' : GatewayConfig}
    (h : c'.insensitive = c.insensitive) :
    { c with
      database := { c.database with
        connectionString := c'.database.connectionString
        password := c'.database.password }
      file := { c.file with accessKey := c'.file.accessKey, secretKey := c'.file.secretKey }
      http := { c.http with baseUrl := c'.http.baseUrl }
      payment := { c.payment with
        apiKey := c'.payment.apiKey
        secretKey := c'.payment.secretKey
        webhookSecret := c'.payment.webhookSecret } } = c' := by
  obtain ⟨file, database, http, notification, payment, sink⟩ := c
  obtain ⟨file', database', http', notification', payment', sink'⟩ := c'
  cases file
  cases file'
  cases database
  cases database'
  cases http
  cases http'
  cases payment
  cases payment'
  simp only [insensitive, GatewayConfig.mk.injEq, FileStorageConfig.mk.injEq,
    DatabaseConfig.mk.injEq, HttpConfig.mk.injEq, PaymentConfig.mk.injEq] at h ⊢
  simp [h]

/-- What expanding the sensitive fields returns. -/
theorem GatewayConfig.expandEnv_eq_ok_iff {env : Env} {c c' : GatewayConfig} :
    c.expandEnv env = .ok c' ↔ c'.insensitive = c.insensitive ∧
      ∀ field ∈ sensitive, expandOpt env (field c) = .ok (field c') := by
  unfold expandEnv
  simp only [bind_eq_ok_iff, sensitive, List.forall_mem_cons]
  constructor
  · rintro ⟨connectionString, h₁, password, h₂, accessKey, h₃, secretKey, h₄, baseUrl, h₅, apiKey, h₆,
      paymentSecretKey, h₇, webhookSecret, h₈, h⟩
    obtain rfl := Except.ok.inj h
    exact ⟨rfl, h₁, h₂, h₃, h₄, h₅, h₆, h₇, h₈, nofun⟩
  · rintro ⟨hin, h₁, h₂, h₃, h₄, h₅, h₆, h₇, h₈, -⟩
    exact ⟨_, h₁, _, h₂, _, h₃, _, h₄, _, h₅, _, h₆, _, h₇, _, h₈,
      congrArg Except.ok (eq_of_insensitive hin)⟩

theorem expandOpt_some (env : Env) (val : String) :
    expandOpt env (some val) =
      if refStart <:+: val.toList then (expandEnvVars env val).map some else .ok (some val) :=
  rfl

/-- A field without the beginning of a reference stays as it is. -/
theorem expandOpt_of_not {env : Env} {field : Option String}
    (h : ∀ val ∈ field, ¬ refStart <:+: val.toList) : expandOpt env field = .ok field := by
  cases field with
  | none => rfl
  | some val => exact if_neg (h val rfl)

/-- **What loading returns**, where the expanded text is read as the configuration `c`: outside of
the sensitive fields it is `c`, and the sensitive fields of `c` are expanded once more where
something in them begins a reference.  It is `c` if nothing does. -/
theorem load_eq_ok_iff (env : Env) (toml : Toml) (s expanded : String) (c : GatewayConfig)
    (hexpand : expandEnvVars env s = .ok expanded) (hread : toml.fromStr expanded = .ok c) :
    (∀ c', loadConfigFromStr env toml s = .ok c' ↔ c'.insensitive = c.insensitive ∧
      ∀ field ∈ GatewayConfig.sensitive, expandOpt env (field c) = .ok (field c')) ∧
    ((∀ field ∈ GatewayConfig.sensitive, ∀ val ∈ field c, ¬ refStart <:+: val.toList) →
      loadConfigFromStr env toml s = .ok c) := by
  have hload : loadConfigFromStr env toml s = c.expandEnv env := by
    unfold loadConfigFromStr
    rw [hexpand]
    show ((toml.fromStr expanded).mapError ConfigError.parse >>= fun c => c.expandEnv env) = _
    rw [hread]
    rfl
  rw [hload]
  refine ⟨fun c' => GatewayConfig.expandEnv_eq_ok_iff, fun hplain => ?_⟩
  exact GatewayConfig.expandEnv_eq_ok_iff.mpr
    ⟨rfl, fun field hmem => expandOpt_of_not (hplain field hmem)⟩

/-- A TOML crate that reads the documents of `TomlText` and writes none. -/
def lineToml : Toml where
  write _ := .error "unsupported"
  read := TomlText.read

/-- The environment with one variable. -/
def singleEnv (name val : String) : Env := fun v => if v = name then some val else none

theorem exists_ok_of_map {ε α β : Type} {r : Except ε α} {f : α → β} {b : β}
    (h : r.toOption.map f = some b) : ∃ a, r = .ok a ∧ f a = b := by
  cases r with
  | error e => cases h
  | ok a => exact ⟨a, rfl, Option.some.inj h⟩

/-- An API key from the environment is what the configuration has. -/
theorem load_apiKey :
    ∃ c, lineToml.fromStr "[payment]\napi_key = \"sk\"\n" = .ok c ∧ c.payment.apiKey = some "sk" ∧
      loadConfigFromStr (singleEnv "KEY" "sk") lineToml "[payment]\napi_key = \"${KEY}\"\n" =
        .ok c := by
  have hexpand : expandEnvVars (singleEnv "KEY" "sk") "[payment]\napi_key = \"${KEY}\"\n" =
      .ok "[payment]\napi_key = \"sk\"\n" := by decide +kernel
  have hsensitive : (lineToml.fromStr "[payment]\napi_key = \"sk\"\n").toOption.map
      (fun c => GatewayConfig.sensitive.map (· c)) =
        some [none, none, none, none, none, some "sk", none, none] := by decide +kernel
  obtain ⟨c, hc, hfields⟩ := exists_ok_of_map hsensitive
  have hkey : c.payment.apiKey = some "sk" := by
    simp only [GatewayConfig.sensitive, List.map_cons, List.cons.injEq] at hfields
    exact hfields.2.2.2.2.2.1
  refine ⟨c, hc, hkey, (load_eq_ok_iff _ _ _ _ c hexpand hc).2 fun field hmem val hval => ?_⟩
  have hin : some val ∈ GatewayConfig.sensitive.map (· c) :=
    List.mem_map.mpr ⟨field, hmem, hval⟩
  rw [hfields] at hin
  obtain rfl : val = "sk" := by simpa using hin
  decide

/-- A value that looks like a reference is expanded again in a sensitive field, here to an error. -/
theorem expanded_twice :
    ∃ expanded c, expandEnvVars (singleEnv "A" "${B}") "[database]\npassword = \"${A}\"\n" =
        .ok expanded ∧ lineToml.fromStr expanded = .ok c ∧
      ∀ c', loadConfigFromStr (singleEnv "A" "${B}") lineToml
        "[database]\npassword = \"${A}\"\n" ≠ .ok c' := by
  have hexpand : expandEnvVars (singleEnv "A" "${B}") "[database]\npassword = \"${A}\"\n" =
      .ok "[database]\npassword = \"${B}\"\n" := by decide +kernel
  have hpassword : (lineToml.fromStr "[database]\npassword = \"${B}\"\n").toOption.map
      (·.database.password) = some (some "${B}") := by decide +kernel
  obtain ⟨c, hc, -⟩ := exists_ok_of_map hpassword
  refine ⟨_, c, hexpand, hc, fun c' hload => ?_⟩
  have hnone : (loadConfigFromStr (singleEnv "A" "${B}") lineToml
      "[database]\npassword = \"${A}\"\n").toOption.isNone = true := by decide +kernel
  rw [hload] at hnone
  cases hnone

end SweGateway
